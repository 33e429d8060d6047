import BuckyOS.Workflow.Cron

/-! When the search for the next fire of a cron schedule is exact. What an expression means is said
over its text; the parser computes it. The search goes minute by minute from a start that need not
be a whole minute, and gives up after a year. -/
namespace BuckyOS.Workflow
open Calendar List Except

def FieldHolds (min max : ℕ) (sevenIsZero : Bool) (raw : List Char) (value : ℕ) : Prop :=
  ∃ part ∈ raw.splitOn ',', ∃ range, parsePart min max part = .ok range ∧
    ∃ k, range.first + k * range.step ≤ range.last ∧
      value = fieldValue sevenIsZero (range.first + k * range.step)

/-- What a five-field expression says of a moment. When both day fields are restricted, either of
them suffices. -/
def CronMatches (expr : String) (dt : DateTime) : Prop :=
  ∃ minute hour dom month dow, splitWhitespace expr.toList = [minute,hour,dom,month,dow] ∧
    FieldHolds 0 59 false minute dt.minute ∧ FieldHolds 0 23 false hour dt.hour ∧
    FieldHolds 1 12 false month dt.month ∧
    if dom = ['*'] ∨ dow = ['*'] then
      FieldHolds 1 31 false dom dt.day ∧ FieldHolds 0 7 true dow dt.weekday
    else FieldHolds 1 31 false dom dt.day ∨ FieldHolds 0 7 true dow dt.weekday

section Parsing
variable {sevenIsZero : Bool} {value : ℕ}

theorem mem_insertValues {last step : ℕ} (hstep : 0 < step) (hlast : last < 2 ^ 32 - 1)
    {fuel current : ℕ} (hfuel : last + 1 ≤ fuel + current) {values : OrderedSet ℕ} :
    value ∈ (insertValues sevenIsZero last step fuel current values).keys ↔
      value ∈ values.keys ∨ ∃ k, current + k * step ≤ last ∧
        value = fieldValue sevenIsZero (current + k * step) := by
  induction fuel generalizing current values with
  | zero =>
    rw [insertValues]
    refine ⟨.inl,?_⟩
    rintro (h | ⟨k,hk,-⟩)
    · exact h
    · omega
  | succ fuel ih =>
    rw [insertValues]
    split_ifs with hcurrent
    · rw [ih (by omega),OrderedSet.mem_add]
      constructor
      · rintro ((rfl | h) | ⟨k,hk,hvalue⟩)
        · exact .inr ⟨0,by omega,by rw [Nat.zero_mul,Nat.add_zero]⟩
        · exact .inl h
        · have hnext : min (current + step) (2 ^ 32 - 1) = current + step := by omega
          rw [hnext] at hk hvalue
          have hsum : current + step + k * step = current + (k + 1) * step := by ring
          rw [hsum] at hk hvalue
          exact .inr ⟨k + 1,hk,hvalue⟩
      · rintro (h | ⟨k,hk,hvalue⟩)
        · exact .inl (.inr h)
        · cases k with
          | zero =>
            rw [Nat.zero_mul,Nat.add_zero] at hvalue
            exact .inl (.inl hvalue)
          | succ k =>
            have hsum : current + (k + 1) * step = current + step + k * step := by ring
            rw [hsum] at hk hvalue
            have hnext : min (current + step) (2 ^ 32 - 1) = current + step := by omega
            exact .inr ⟨k,by rwa [hnext],by rwa [hnext]⟩
    · refine ⟨.inl,?_⟩
      rintro (h | ⟨k,hk,-⟩)
      · exact h
      · omega

variable {min max : ℕ} {raw range part : List Char}

theorem parseFieldNum_ok (h : parseFieldNum min max raw = .ok value) : value ≤ max := by
  rw [parseFieldNum] at h
  split at h
  · cases h
  · split_ifs at h with hout
    obtain rfl := ok.inj h
    omega

theorem parseEnds_ok {first last : ℕ} (h : parseEnds min max range = .ok (first,last)) : last ≤ max := by
  rw [parseEnds] at h
  split_ifs at h with hstar
  · obtain ⟨-,rfl⟩ := Prod.mk.inj (ok.inj h)
    exact le_rfl
  · split at h
    · obtain ⟨a,-,h⟩ := bind_eq_ok_iff.mp h
      obtain ⟨b,hb,h⟩ := bind_eq_ok_iff.mp h
      obtain ⟨-,rfl⟩ := Prod.mk.inj (ok.inj h)
      exact parseFieldNum_ok hb
    · obtain ⟨a,ha,h⟩ := bind_eq_ok_iff.mp h
      obtain ⟨-,rfl⟩ := Prod.mk.inj (ok.inj h)
      exact parseFieldNum_ok ha

theorem parseStep_ok {step : ℕ} (h : parseStep part = .ok (range,step)) : 0 < step := by
  rw [parseStep] at h
  split at h
  · obtain ⟨-,rfl⟩ := Prod.mk.inj (ok.inj h)
    exact Nat.one_pos
  · split at h
    · cases h
    · split_ifs at h with hzero
      obtain ⟨-,rfl⟩ := Prod.mk.inj (ok.inj h)
      exact Nat.pos_of_ne_zero hzero

theorem parsePart_ok {range : CronRange} (h : parsePart min max part = .ok range) :
    0 < range.step ∧ range.last ≤ max := by
  obtain ⟨⟨text,step⟩,hstep,h⟩ := bind_eq_ok_iff.mp h
  obtain ⟨⟨first,last⟩,hends,h⟩ := bind_eq_ok_iff.mp h
  dsimp only at h
  split_ifs at h
  obtain rfl := ok.inj h
  exact ⟨parseStep_ok hstep,parseEnds_ok hends⟩

theorem mem_foldl_insertRange {ranges : List CronRange}
    (hranges : ∀ range ∈ ranges, 0 < range.step ∧ range.last < 2 ^ 32 - 1) {values : OrderedSet ℕ} :
    value ∈ (ranges.foldl (insertRange sevenIsZero) values).keys ↔
      value ∈ values.keys ∨ ∃ range ∈ ranges, ∃ k, range.first + k * range.step ≤ range.last ∧
        value = fieldValue sevenIsZero (range.first + k * range.step) := by
  induction ranges generalizing values with
  | nil => simp
  | cons range ranges ih =>
    obtain ⟨hstep,hlast⟩ := hranges range mem_cons_self
    rw [foldl_cons,ih (fun r hr => hranges r (mem_cons_of_mem _ hr)),insertRange,
      mem_insertValues hstep hlast (by omega),exists_mem_cons_iff,or_assoc]

theorem parseField_ok (hmax : max < 2 ^ 32 - 1) {parsed : OrderedSet ℕ × Bool}
    (h : parseField min max sevenIsZero raw = .ok parsed) : (parsed.2 = true ↔ raw = ['*']) ∧
      ∀ value, value ∈ parsed.1.keys ↔ FieldHolds min max sevenIsZero raw value := by
  obtain ⟨ranges,hranges,h⟩ := bind_eq_ok_iff.mp h
  obtain rfl := ok.inj h
  have hmem : ∀ range, range ∈ ranges ↔
      ∃ part ∈ raw.splitOn ',', parsePart min max part = .ok range := fun _ => mem_of_mapM hranges
  refine ⟨decide_eq_true_iff,?_⟩
  intro value
  rw [mem_foldl_insertRange]
  · constructor
    · rintro (h | ⟨range,hrange,hk⟩)
      · exact absurd h not_mem_nil
      · obtain ⟨part,hpart,hok⟩ := (hmem range).mp hrange
        exact ⟨part,hpart,range,hok,hk⟩
    · rintro ⟨part,hpart,range,hok,hk⟩
      exact .inr ⟨range,(hmem range).mpr ⟨part,hpart,hok⟩,hk⟩
  · intro range hrange
    obtain ⟨part,-,hok⟩ := (hmem range).mp hrange
    obtain ⟨hstep,hlast⟩ := parsePart_ok hok
    exact ⟨hstep,by omega⟩

theorem fieldHolds_star (hmin : min ≤ value) (hmax : value ≤ max)
    (hseven : sevenIsZero = true → value ≠ 7) : FieldHolds min max sevenIsZero ['*'] value := by
  refine ⟨['*'],by decide,⟨min,max,1⟩,?_,value - min,?_,?_⟩
  · refine bind_eq_ok_iff.mpr ⟨(['*'],1),by decide,?_⟩
    refine bind_eq_ok_iff.mpr ⟨(min,max),if_pos rfl,?_⟩
    exact if_neg (by omega)
  · show min + (value - min) * 1 ≤ max
    omega
  · show value = fieldValue sevenIsZero (min + (value - min) * 1)
    rw [show min + (value - min) * 1 = value by omega,fieldValue,if_neg]
    exact fun h => hseven h.1 h.2

theorem matches_days {dom dow : List Char} {days weekdays : List ℕ} {domStar dowStar dayMatch : Bool}
    {day weekday : ℕ} (hmatch : dayMatch = match domStar,dowStar with
      | true, true => true
      | true, false => decide (weekday ∈ weekdays)
      | false, true => decide (day ∈ days)
      | false, false => decide (day ∈ days) || decide (weekday ∈ weekdays))
    (hday : 1 ≤ day ∧ day ≤ 31) (hweekday : weekday < 7)
    (hdomStar : domStar = true ↔ dom = ['*']) (hdowStar : dowStar = true ↔ dow = ['*'])
    (hdom : ∀ n, n ∈ days ↔ FieldHolds 1 31 false dom n)
    (hdow : ∀ n, n ∈ weekdays ↔ FieldHolds 0 7 true dow n) :
    dayMatch = true ↔ if dom = ['*'] ∨ dow = ['*'] then
        FieldHolds 1 31 false dom day ∧ FieldHolds 0 7 true dow weekday
      else FieldHolds 1 31 false dom day ∨ FieldHolds 0 7 true dow weekday := by
  subst hmatch
  have hdomAll : dom = ['*'] → FieldHolds 1 31 false dom day := by
    rintro rfl
    exact fieldHolds_star hday.1 hday.2 (fun h => by cases h)
  have hdowAll : dow = ['*'] → FieldHolds 0 7 true dow weekday := by
    rintro rfl
    exact fieldHolds_star (Nat.zero_le _) (by omega) (fun _ => by omega)
  cases domStar <;> cases dowStar
  · rw [if_neg (by simp [← hdomStar,← hdowStar])]
    simp [hdom,hdow]
  · have hstar := hdowStar.mp rfl
    rw [if_pos (.inr hstar)]
    simp [hdom,hdowAll hstar]
  · have hstar := hdomStar.mp rfl
    rw [if_pos (.inl hstar)]
    simp [hdow,hdomAll hstar]
  · rw [if_pos (.inl (hdomStar.mp rfl))]
    simp [hdomAll (hdomStar.mp rfl),hdowAll (hdowStar.mp rfl)]

theorem matches_iff {expr : String} {cron : CronExpr} (hexpr : expr ≠ "@reboot")
    (h : parseCron expr = .ok cron) {dt : DateTime} (hday : 1 ≤ dt.day ∧ dt.day ≤ 31)
    (hweekday : dt.weekday < 7) : cron.matches dt = true ↔ CronMatches expr dt := by
  rw [parseCron,if_neg hexpr] at h
  split at h
  · rename_i minute hour dom month dow hfields
    obtain ⟨minute',hminute,h⟩ := bind_eq_ok_iff.mp h
    obtain ⟨hour',hhour,h⟩ := bind_eq_ok_iff.mp h
    obtain ⟨dom',hdom,h⟩ := bind_eq_ok_iff.mp h
    obtain ⟨month',hmonth,h⟩ := bind_eq_ok_iff.mp h
    obtain ⟨dow',hdow,h⟩ := bind_eq_ok_iff.mp h
    obtain rfl := ok.inj h
    obtain ⟨-,hminute⟩ := parseField_ok (by omega) hminute
    obtain ⟨-,hhour⟩ := parseField_ok (by omega) hhour
    obtain ⟨hdomStar,hdom⟩ := parseField_ok (by omega) hdom
    obtain ⟨-,hmonth⟩ := parseField_ok (by omega) hmonth
    obtain ⟨hdowStar,hdow⟩ := parseField_ok (by omega) hdow
    have hdays := matches_days rfl hday hweekday hdomStar hdowStar hdom hdow
    rw [CronExpr.matches,Bool.and_eq_true,Bool.and_eq_true,Bool.and_eq_true,decide_eq_true_eq,
      decide_eq_true_eq,decide_eq_true_eq,hminute,hhour,hmonth]
    constructor
    · rintro ⟨⟨⟨hm,hh⟩,hmo⟩,hd⟩
      exact ⟨minute,hour,dom,month,dow,hfields,hm,hh,hmo,hdays.mp hd⟩
    · rintro ⟨minute₁,hour₁,dom₁,month₁,dow₁,hfields₁,hm,hh,hmo,hd⟩
      rw [hfields] at hfields₁
      simp only [cons.injEq,and_true] at hfields₁
      obtain ⟨rfl,rfl,rfl,rfl,rfl⟩ := hfields₁
      exact ⟨⟨⟨hm,hh⟩,hmo⟩,hdays.mpr hd⟩
  · cases h

end Parsing

section Times
def localTime (timezone : String) (ts : ℤ) : Option DateTime :=
  match timezoneOffsetSeconds timezone ts with
  | .ok offset => fromTimestamp (ts + offset)
  | .error _ => none

def MatchesAt (expr timezone : String) (ts : ℤ) : Prop :=
  ∃ dt, localTime timezone ts = some dt ∧ CronMatches expr dt

theorem fromTimestamp_minute (ts : ℤ) : fromTimestamp (ts - ts % 60) = fromTimestamp ts := by
  have hrange : earliest ≤ ts - ts % 60 ∧ ts - ts % 60 ≤ latest ↔ earliest ≤ ts ∧ ts ≤ latest := by
    rw [earliest_eq,latest_eq]
    omega
  simp only [fromTimestamp,hrange,ofTimestamp_minute]

theorem nthWeekdayOfMonth_mod (year : ℤ) (month weekday nth hour : ℕ) :
    nthWeekdayOfMonth year month weekday nth hour % 60 = 0 := by
  rw [nthWeekdayOfMonth]
  split
  · exact timestampOf_mod ..
  · rfl

theorem isUsDst_minute (ts standardOffsetHours : ℤ) :
    isUsDst (ts - ts % 60) standardOffsetHours = isUsDst ts standardOffsetHours := by
  unfold isUsDst
  rw [fromTimestamp_minute]
  cases fromTimestamp ts with
  | none => rfl
  | some utc =>
    have hstart := nthWeekdayOfMonth_mod utc.year 3 0 2 2
    have hend := nthWeekdayOfMonth_mod utc.year 11 0 1 2
    dsimp only
    rw [decide_eq_decide]
    omega

theorem timezoneOffsetSeconds_minute (timezone : String) (ts : ℤ) :
    timezoneOffsetSeconds timezone (ts - ts % 60) = timezoneOffsetSeconds timezone ts := by
  simp only [timezoneOffsetSeconds,isUsDst_minute]

theorem parseFixedOffset_mod {raw : String} {offset : ℤ} (h : parseFixedOffset raw = some offset) :
    offset % 60 = 0 := by
  rw [parseFixedOffset] at h
  split at h
  · split at h
    · split_ifs at h
      · obtain rfl := Option.some.inj h
        omega
      · obtain rfl := Option.some.inj h
        omega
    · cases h
  · cases h

variable {timezone : String}

theorem timezoneOffsetSeconds_mod {ts offset : ℤ}
    (h : timezoneOffsetSeconds timezone ts = .ok offset) : offset % 60 = 0 := by
  rw [timezoneOffsetSeconds] at h
  split_ifs at h
  · exact ok.inj h ▸ rfl
  · exact ok.inj h ▸ rfl
  · exact ok.inj h ▸ rfl
  · exact ok.inj h ▸ rfl
  · exact ok.inj h ▸ rfl
  · exact ok.inj h ▸ rfl
  · split at h
    · rename_i hfixed
      exact ok.inj h ▸ parseFixedOffset_mod hfixed
    · cases h

theorem localTime_minute (timezone : String) (ts : ℤ) :
    localTime timezone (ts - ts % 60) = localTime timezone ts := by
  rw [localTime,localTime,timezoneOffsetSeconds_minute]
  cases hoffset : timezoneOffsetSeconds timezone ts with
  | error => rfl
  | ok offset =>
    have hmod := timezoneOffsetSeconds_mod hoffset
    have hsum : ts - ts % 60 + offset = ts + offset - (ts + offset) % 60 := by omega
    dsimp only
    rw [hsum,fromTimestamp_minute]

theorem matchesAt_iff {expr : String} {cron : CronExpr} (hexpr : expr ≠ "@reboot")
    (h : parseCron expr = .ok cron) (ts : ℤ) :
    matchesAt cron timezone ts = true ↔ MatchesAt expr timezone ts := by
  rw [matchesAt,MatchesAt,localTime]
  cases timezoneOffsetSeconds timezone ts with
  | error => simp
  | ok offset =>
    dsimp only
    rw [Option.any_eq_true,fromTimestamp]
    refine exists_congr (fun dt => and_congr_right ?_)
    intro hdt
    split_ifs at hdt
    obtain rfl := Option.some.inj hdt
    exact matches_iff hexpr h (day_bounds _) (weekday_lt _)

end Times

section Search
variable {last : ℤ} {endAt : Option ℤ} {found : ℤ → Bool}

theorem searchMinutes_some {fuel : ℕ} {ts t : ℤ} (h : searchMinutes last endAt found fuel ts = some t) :
    ∃ k : ℕ, t = ts + 60 * k ∧ t ≤ last ∧ (∀ stop ∈ endAt, t ≤ stop) ∧ found t = true ∧
      ∀ j < k, found (ts + 60 * j) = false := by
  induction fuel generalizing ts with
  | zero => cases h
  | succ fuel ih =>
    rw [searchMinutes] at h
    split_ifs at h with hbounds hfound
    · obtain rfl := Option.some.inj h
      exact ⟨0,by simp,hbounds.1,hbounds.2,hfound,fun j hj => absurd hj (Nat.not_lt_zero j)⟩
    · obtain ⟨k,rfl,hlast,hstop,hk,hbefore⟩ := ih h
      refine ⟨k + 1,by push_cast; ring,hlast,hstop,hk,?_⟩
      intro j hj
      cases j with
      | zero => simpa using hfound
      | succ j =>
        have hprevious := hbefore j (by omega)
        rwa [show ts + 60 + 60 * (j : ℤ) = ts + 60 * ((j + 1 : ℕ) : ℤ) by push_cast; ring] at hprevious

theorem searchMinutes_none {fuel : ℕ} {ts : ℤ} (h : searchMinutes last endAt found fuel ts = none)
    {k : ℕ} (hk : k < fuel) (hlast : ts + 60 * k ≤ last) (hend : ∀ stop ∈ endAt, ts + 60 * k ≤ stop) :
    found (ts + 60 * k) = false := by
  induction fuel generalizing ts k with
  | zero => omega
  | succ fuel ih =>
    rw [searchMinutes,if_pos ⟨by omega,fun stop hstop => by have := hend stop hstop; omega⟩] at h
    split_ifs at h with hfound
    cases k with
    | zero => simpa using hfound
    | succ k =>
      have hsum : ts + 60 * ((k + 1 : ℕ) : ℤ) = ts + 60 + 60 * (k : ℤ) := by push_cast; ring
      rw [hsum] at hlast hend ⊢
      exact ih h (by omega) hlast hend

end Search

/-- A whole minute within the bounds of a schedule whose local time the expression names. -/
structure Occurrence (expr timezone : String) (startAt endAt : Option ℤ) (t : ℤ) : Prop where
  minute : t % 60 = 0
  start : ∀ first ∈ startAt, first ≤ t
  stop : ∀ last ∈ endAt, t ≤ last
  named : MatchesAt expr timezone t

section Exactness
variable (expr timezone : String) (startAt endAt : Option ℤ)

/-- The first occurrence after a time, or that there is none. -/
def NextOccurrence (afterTs : ℤ) : Option ℤ → Prop
  | some t => afterTs < t ∧ Occurrence expr timezone startAt endAt t ∧
      ∀ t', afterTs < t' → Occurrence expr timezone startAt endAt t' → t ≤ t'
  | none => ∀ t, afterTs < t → ¬ Occurrence expr timezone startAt endAt t

/-- When the search misses nothing: it begins at a whole minute and, if there is an occurrence, one
lies within a year; or it begins within a minute that the expression does not name and there is no
occurrence at all. -/
def Covered (afterTs : ℤ) : Prop :=
  if searchFrom startAt afterTs % 60 = 0 then
    (∃ t, afterTs < t ∧ Occurrence expr timezone startAt endAt t) →
      ∃ t, afterTs < t ∧ Occurrence expr timezone startAt endAt t ∧
        t ≤ searchFrom startAt afterTs + 60 * minutesOfYear
  else
    (∀ t, afterTs < t → ¬ Occurrence expr timezone startAt endAt t) ∧
      ((∀ last ∈ endAt, searchFrom startAt afterTs ≤ last) →
        ¬ MatchesAt expr timezone (searchFrom startAt afterTs))

theorem searchFrom_bounds (afterTs : ℤ) : afterTs < searchFrom startAt afterTs ∧
    ∀ first ∈ startAt, first ≤ searchFrom startAt afterTs := by
  have hround : afterTs < roundToNextMinute afterTs := by
    rw [roundToNextMinute]
    omega
  cases startAt with
  | none => exact ⟨hround,by simp⟩
  | some start =>
    refine ⟨lt_of_lt_of_le hround (le_max_left _ _),?_⟩
    rintro first ⟨⟩
    exact le_max_right _ _

variable {expr timezone startAt endAt} {afterTs : ℤ}

theorem Occurrence.searchFrom_le {t : ℤ} (h : Occurrence expr timezone startAt endAt t)
    (hafter : afterTs < t) : searchFrom startAt afterTs ≤ t := by
  have hminute := h.minute
  have hround : roundToNextMinute afterTs ≤ t := by
    rw [roundToNextMinute]
    omega
  cases hstart : startAt with
  | none => exact hround
  | some start => exact max_le hround (h.start start hstart)

variable {cron : CronExpr} {found : Option ℤ} {fuel : ℕ}
  (hcron : ∀ t, matchesAt cron timezone t = true ↔ MatchesAt expr timezone t)
  (hsearch : searchMinutes (searchFrom startAt afterTs + 60 * fuel) endAt (matchesAt cron timezone)
    (fuel + 1) (searchFrom startAt afterTs) = found)

include hcron hsearch

theorem nextOccurrence_iff_of_minute (hminute : searchFrom startAt afterTs % 60 = 0) :
    NextOccurrence expr timezone startAt endAt afterTs found ↔
      ((∃ t, afterTs < t ∧ Occurrence expr timezone startAt endAt t) →
        ∃ t, afterTs < t ∧ Occurrence expr timezone startAt endAt t ∧
          t ≤ searchFrom startAt afterTs + 60 * fuel) := by
  obtain ⟨hafter,hstart⟩ := searchFrom_bounds startAt afterTs
  have hsteps : ∀ t, afterTs < t → Occurrence expr timezone startAt endAt t →
      ∃ j : ℕ, t = searchFrom startAt afterTs + 60 * j := by
    intro t ht hoccurs
    have hle := hoccurs.searchFrom_le ht
    have htminute := hoccurs.minute
    exact ⟨((t - searchFrom startAt afterTs) / 60).toNat,by omega⟩
  cases found with
  | some t =>
    obtain ⟨k,hk,hlast,hstop,hnamed,hbefore⟩ := searchMinutes_some hsearch
    have hoccurs : Occurrence expr timezone startAt endAt t := by
      refine ⟨by omega,?_,hstop,(hcron t).mp hnamed⟩
      intro first hfirst
      have hle := hstart first hfirst
      omega
    have hfirst : ∀ t', afterTs < t' → Occurrence expr timezone startAt endAt t' → t ≤ t' := by
      intro t' ht' hoccurs'
      obtain ⟨j,rfl⟩ := hsteps t' ht' hoccurs'
      by_contra hlt
      have hnone := hbefore j (by omega)
      rw [(hcron _).mpr hoccurs'.named] at hnone
      cases hnone
    exact ⟨fun _ _ => ⟨t,by omega,hoccurs,hlast⟩,fun _ => ⟨by omega,hoccurs,hfirst⟩⟩
  | none =>
    constructor
    · rintro hnone ⟨t,ht,hoccurs⟩
      exact absurd hoccurs (hnone t ht)
    · intro hreach t ht hoccurs
      obtain ⟨t',ht',hoccurs',hle⟩ := hreach ⟨t,ht,hoccurs⟩
      obtain ⟨j,rfl⟩ := hsteps t' ht' hoccurs'
      have hnone := searchMinutes_none hsearch (k := j) (by omega) hle hoccurs'.stop
      rw [(hcron _).mpr hoccurs'.named] at hnone
      cases hnone

theorem nextOccurrence_iff_of_not_minute (hminute : searchFrom startAt afterTs % 60 ≠ 0) :
    NextOccurrence expr timezone startAt endAt afterTs found ↔
      (∀ t, afterTs < t → ¬ Occurrence expr timezone startAt endAt t) ∧
        ((∀ last ∈ endAt, searchFrom startAt afterTs ≤ last) →
          ¬ MatchesAt expr timezone (searchFrom startAt afterTs)) := by
  obtain ⟨hafter,hstart⟩ := searchFrom_bounds startAt afterTs
  cases found with
  | some t =>
    obtain ⟨k,hk,-,hstop,hnamed,-⟩ := searchMinutes_some hsearch
    constructor
    · rintro ⟨-,hoccurs,-⟩
      have htminute := hoccurs.minute
      omega
    · rintro ⟨hnone,hfirst⟩
      exfalso
      cases k with
      | zero =>
        obtain rfl : t = searchFrom startAt afterTs := by simpa using hk
        exact hfirst hstop ((hcron _).mp hnamed)
      | succ k =>
        refine hnone (t - t % 60) (by omega) ⟨by omega,?_,?_,?_⟩
        · intro first hmem
          have hle := hstart first hmem
          omega
        · intro stop hmem
          have hle := hstop stop hmem
          omega
        · rw [MatchesAt,localTime_minute]
          exact (hcron t).mp hnamed
  | none =>
    refine ⟨fun hnone => ⟨hnone,?_⟩,And.left⟩
    intro hend hnamed
    have hfalse := searchMinutes_none hsearch (k := 0) (by omega) (by omega) (by simpa using hend)
    rw [Nat.cast_zero,mul_zero,add_zero,(hcron _).mpr hnamed] at hfalse
    cases hfalse

end Exactness

section Claims
variable {now : ℤ} {value : Json} {expr timezone : String} {calendar : Option String}
  {startAt endAt : Option ℤ}

theorem parseCron_of_accepted
    (h : scheduleSpecFromValue now value = .ok (.cron expr timezone calendar startAt endAt)) :
    ∃ cron, parseCron expr = .ok cron := by
  unfold scheduleSpecFromValue at h
  dsimp only at h
  split at h
  · cases h
  · split at h
    · cases h
    · obtain ⟨normalized,-,h⟩ := bind_eq_ok_iff.mp h
      obtain ⟨offset,-,h⟩ := bind_eq_ok_iff.mp h
      obtain ⟨cron,hcron,h⟩ := bind_eq_ok_iff.mp h
      obtain ⟨rfl,-,-,-,-⟩ := ScheduleSpec.cron.inj (ok.inj h)
      exact ⟨cron,hcron⟩
  · split at h <;> cases h
  · split at h
    · cases h
    · split_ifs at h
      split at h
      · cases h
      · obtain ⟨offset,-,h⟩ := bind_eq_ok_iff.mp h
        cases h
  · cases h

theorem saturated_of_bounds {x : ℤ} (hlow : -2 ^ 63 ≤ x) (hhigh : x < 2 ^ 63) : saturated x = x := by
  rw [saturated,min_eq_left (by omega),max_eq_right hlow]

theorem nextFireAfter_cron (hexpr : expr ≠ "@reboot") {cron : CronExpr}
    (hcron : parseCron expr = .ok cron) (hstart : ∀ start ∈ startAt, start ≤ latest) (now : ℤ)
    {afterTs : ℤ} (hlow : earliest ≤ afterTs) (hhigh : afterTs ≤ latest) :
    nextFireAfter now (.cron expr timezone calendar startAt endAt) afterTs =
      searchMinutes (searchFrom startAt afterTs + 60 * minutesOfYear) endAt (matchesAt cron timezone)
        (minutesOfYear + 1) (searchFrom startAt afterTs) := by
  have hafter := (searchFrom_bounds startAt afterTs).1
  have hbound : searchFrom startAt afterTs ≤ latest + 60 := by
    have hround : roundToNextMinute afterTs ≤ latest + 60 := by
      rw [roundToNextMinute]
      omega
    cases hs : startAt with
    | none => exact hround
    | some start =>
      have hle := hstart start hs
      exact max_le hround (by omega)
  rw [earliest_eq] at hlow
  rw [latest_eq] at hbound
  rw [nextFireAfter,if_neg hexpr,hcron]
  dsimp only
  rw [saturated_of_bounds]
  · rw [minutesOfYear]
    omega
  · rw [minutesOfYear]
    omega

theorem matchesAt_of_nextFireAfter (hexpr : expr ≠ "@reboot") {clock afterTs t : ℤ}
    (h : nextFireAfter clock (.cron expr timezone calendar startAt endAt) afterTs = some t) :
    MatchesAt expr timezone t := by
  rw [nextFireAfter,if_neg hexpr] at h
  split at h
  · cases h
  · rename_i cron hcron
    obtain ⟨k,-,-,-,hnamed,-⟩ := searchMinutes_some h
    exact (matchesAt_iff hexpr hcron t).mp hnamed

/-- The next fire of an accepted cron schedule is exact just when its search misses nothing; and
then the next fires are strictly increasing and leave out no occurrence. -/
theorem nextFireAfter_exact_iff
    (haccepted : scheduleSpecFromValue now value = .ok (.cron expr timezone calendar startAt endAt))
    (hexpr : expr ≠ "@reboot") (hstart : ∀ start ∈ startAt, start ≤ latest) (clock : ℤ) :
    (∀ afterTs, earliest ≤ afterTs → afterTs ≤ latest →
      (NextOccurrence expr timezone startAt endAt afterTs
          (nextFireAfter clock (.cron expr timezone calendar startAt endAt) afterTs) ↔
        Covered expr timezone startAt endAt afterTs)) ∧
    ∀ count afterTs, (∀ cursor ∈ afterTs ::
        nextFireTimes clock (.cron expr timezone calendar startAt endAt) count afterTs,
        earliest ≤ cursor ∧ cursor ≤ latest ∧ Covered expr timezone startAt endAt cursor) →
      (afterTs :: nextFireTimes clock (.cron expr timezone calendar startAt endAt) count
        afterTs).Pairwise (· < ·) ∧
      ∀ t, afterTs < t → Occurrence expr timezone startAt endAt t →
        t ∉ nextFireTimes clock (.cron expr timezone calendar startAt endAt) count afterTs →
        (nextFireTimes clock (.cron expr timezone calendar startAt endAt) count afterTs).length =
            count ∧
          ∀ fire ∈ nextFireTimes clock (.cron expr timezone calendar startAt endAt) count afterTs,
            fire < t := by
  obtain ⟨cron,hcron⟩ := parseCron_of_accepted haccepted
  have hnext : ∀ afterTs, earliest ≤ afterTs → afterTs ≤ latest →
      (NextOccurrence expr timezone startAt endAt afterTs
          (nextFireAfter clock (.cron expr timezone calendar startAt endAt) afterTs) ↔
        Covered expr timezone startAt endAt afterTs) := by
    intro afterTs hlow hhigh
    have hsearch : nextFireAfter clock (.cron expr timezone calendar startAt endAt) afterTs = _ :=
      nextFireAfter_cron hexpr hcron hstart clock hlow hhigh
    rw [Covered]
    split_ifs with hminute
    · exact nextOccurrence_iff_of_minute (matchesAt_iff hexpr hcron) hsearch.symm hminute
    · exact nextOccurrence_iff_of_not_minute (matchesAt_iff hexpr hcron) hsearch.symm hminute
  refine ⟨hnext,?_⟩
  intro count
  induction count with
  | zero =>
    intro afterTs _
    simp [nextFireTimes]
  | succ count ih =>
    intro afterTs hcursors
    obtain ⟨hlow,hhigh,hcovered⟩ := hcursors afterTs mem_cons_self
    have hexact := (hnext afterTs hlow hhigh).mpr hcovered
    rw [nextFireTimes] at hcursors ⊢
    cases hfound : nextFireAfter clock (.cron expr timezone calendar startAt endAt) afterTs with
    | none =>
      rw [hfound] at hexact
      refine ⟨by simp,?_⟩
      intro t ht hoccurs
      exact absurd hoccurs (hexact t ht)
    | some next =>
      rw [hfound] at hexact
      rw [hfound] at hcursors
      obtain ⟨hafter,hoccurs,hleast⟩ := hexact
      obtain ⟨hsorted,hrest⟩ := ih next (fun cursor hcursor =>
        hcursors cursor (mem_cons_of_mem _ hcursor))
      refine ⟨?_,?_⟩
      · rw [pairwise_cons]
        refine ⟨?_,hsorted⟩
        intro fire hfire
        rcases mem_cons.mp hfire with rfl | hfire
        · exact hafter
        · exact hafter.trans ((pairwise_cons.mp hsorted).1 fire hfire)
      · intro t ht htoccurs hnot
        rw [mem_cons,not_or] at hnot
        have hlt : next < t := lt_of_le_of_ne (hleast t ht htoccurs) (Ne.symm hnot.1)
        obtain ⟨hlength,hfires⟩ := hrest t hlt htoccurs hnot.2
        refine ⟨by rw [length_cons,hlength],?_⟩
        intro fire hfire
        rcases mem_cons.mp hfire with rfl | hfire
        · exact hlt
        · exact hfires fire hfire

def cronValue (expr : String) : Json := .object [("expr",.string expr),("kind",.string "cron")]

theorem nextFireAfter_exact_everyMinute :
    nextFireAfter 0 (.cron "* * * * *" "UTC" none none none) 0 = some 60 ∧
      NextOccurrence "* * * * *" "UTC" none none 0 (some 60) := by
  have hfound : nextFireAfter 0 (.cron "* * * * *" "UTC" none none none) 0 = some 60 := by
    decide +kernel
  have haccepted : scheduleSpecFromValue 0 (cronValue "* * * * *") =
      .ok (.cron "* * * * *" "UTC" none none none) := by decide +kernel
  have hexact := (nextFireAfter_exact_iff haccepted (by decide) (by simp) 0).1 0 (by decide)
    (by decide)
  rw [hfound] at hexact
  have hoccurs : Occurrence "* * * * *" "UTC" none none 60 :=
    ⟨rfl,by simp,by simp,matchesAt_of_nextFireAfter (by decide) hfound⟩
  exact ⟨hfound,hexact.mpr (fun _ => ⟨60,by decide,hoccurs,by decide⟩)⟩

/-- From one leap day to the next the search finds nothing, and a schedule that starts within a
minute fires within minutes. -/
theorem leap_day_missed :
    scheduleSpecFromValue 0 (cronValue "0 0 29 2 *") =
        .ok (.cron "0 0 29 2 *" "UTC" none none none) ∧
      nextFireAfter 0 (.cron "0 0 29 2 *" "UTC" none none none) 1709164800 = none ∧
      Occurrence "0 0 29 2 *" "UTC" none none 1835395200 ∧
      nextFireAfter 0 (.cron "* * * * *" "UTC" none (some 90) none) 0 = some 90 := by
  have hfound : nextFireAfter 0 (.cron "0 0 29 2 *" "UTC" none none none) 1835395140 =
      some 1835395200 := by decide +kernel
  have haccepted : scheduleSpecFromValue 0 (cronValue "0 0 29 2 *") =
      .ok (.cron "0 0 29 2 *" "UTC" none none none) := by decide +kernel
  refine ⟨haccepted,?_,⟨by decide,by simp,by simp,matchesAt_of_nextFireAfter (by decide) hfound⟩,
    by decide +kernel⟩
  obtain ⟨cron,hcron⟩ := parseCron_of_accepted haccepted
  have hfields : ((parseCron "0 0 29 2 *").toOption.any (fun cron => decide
      (cron.minute.keys = [0] ∧ cron.hour.keys = [0] ∧ cron.month.keys = [2] ∧
        cron.dom.keys = [29] ∧ cron.domStar = false ∧ cron.dowStar = true))) = true := by
    decide +kernel
  rw [hcron] at hfields
  obtain ⟨hminute,hhour,hmonth,hdom,hdomStar,hdowStar⟩ := of_decide_eq_true hfields
  have hdays : ∀ day : Fin 367, (ofTimestamp ((19783 + day) * 86400)).day = 29 →
      (ofTimestamp ((19783 + day) * 86400)).month ≠ 2 := by decide +kernel
  rw [nextFireAfter_cron (by decide) hcron (by simp) 0 (by decide) (by decide),
    Option.eq_none_iff_forall_ne_some]
  intro t hsome
  obtain ⟨k,hk,hlast,-,hnamed,-⟩ := searchMinutes_some hsome
  rw [show searchFrom none 1709164800 = 1709164860 by decide] at hk hlast
  rw [show (minutesOfYear : ℤ) = 527040 by decide] at hlast
  have hmoment : cron.matches (ofTimestamp t) = true := by
    rw [matchesAt,show timezoneOffsetSeconds "UTC" t = .ok 0 from if_pos (by decide)] at hnamed
    dsimp only at hnamed
    rw [Option.any_eq_true] at hnamed
    obtain ⟨dt,hdt,hmatches⟩ := hnamed
    rw [fromTimestamp,add_zero] at hdt
    split_ifs at hdt
    rwa [Option.some.inj hdt]
  simp only [CronExpr.matches,hminute,hhour,hmonth,hdom,hdomStar,hdowStar,mem_singleton,
    Bool.and_eq_true,decide_eq_true_eq] at hmoment
  obtain ⟨⟨⟨hzero,hmidnight⟩,hfebruary⟩,hday⟩ := hmoment
  have hstart : t % 86400 = 0 := by
    change (t % 3600 / 60).toNat = 0 at hzero
    change (t % 86400 / 3600).toNat = 0 at hmidnight
    omega
  have hnumber : t = (19783 + (((t / 86400 - 19783).toNat : ℕ) : ℤ)) * 86400 := by omega
  have hrange : (t / 86400 - 19783).toNat < 367 := by omega
  have hnot := hdays ⟨(t / 86400 - 19783).toNat,hrange⟩
  simp only [← hnumber] at hnot
  exact hnot hday hfebruary

end Claims
end BuckyOS.Workflow
