import BuckyOS.Lib.Calendar
import BuckyOS.Lib.Effects
import BuckyOS.Lib.Json
import BuckyOS.Lib.Text

/-! Schedules and when they fire: the five-field cron expressions and their parser, the time zones
the service knows, and the search for the next time a schedule is due. Times are seconds since
1970; within the years the date library knows no computation on them overflows. -/
namespace BuckyOS.Workflow
open Calendar
open Text (splitOnce digitsValue parseSigned)

def splitWhitespace (text : List Char) : List (List Char) :=
  (text.splitOnP Text.isWhiteSpace).filter (fun word => !word.isEmpty)

def parseU32 (text : List Char) : Option ℕ :=
  (digitsValue (if text.head? = some '+' then text.drop 1 else text)).filter (· < 2 ^ 32)

def backquoted (text : List Char) : String := "\x60" ++ String.ofList text ++ "\x60"

def parseFieldNum (min max : ℕ) (raw : List Char) : Except String ℕ :=
  match parseU32 raw with
  | none => .error ("invalid cron value " ++ backquoted raw)
  | some value =>
    if value < min ∨ max < value then
      .error ("cron value " ++ backquoted (toString value).toList ++ " out of range " ++
        toString min ++ "-" ++ toString max)
    else .ok value

structure CronRange where
  first : ℕ
  last : ℕ
  step : ℕ
deriving DecidableEq

def parseStep (part : List Char) : Except String (List Char × ℕ) :=
  match splitOnce '/' part with
  | none => .ok (part,1)
  | some (range,step) =>
    match parseU32 step with
    | none => .error ("invalid cron step " ++ backquoted part)
    | some step =>
      if step = 0 then .error "cron step must be greater than zero" else .ok (range,step)

def parseEnds (min max : ℕ) (range : List Char) : Except String (ℕ × ℕ) :=
  if range = ['*'] then .ok (min,max)
  else
    match splitOnce '-' range with
    | some (first,last) => do
      return (← parseFieldNum min max first,← parseFieldNum min max last)
    | none => do
      let value ← parseFieldNum min max range
      return (value,value)

def parsePart (min max : ℕ) (part : List Char) : Except String CronRange := do
  let (range,step) ← parseStep part
  let (first,last) ← parseEnds min max range
  if last < first then .error ("invalid cron range " ++ backquoted part) else .ok ⟨first,last,step⟩

/-- In the field of weekdays 7 is Sunday as 0 is. -/
def fieldValue (sevenIsZero : Bool) (value : ℕ) : ℕ := if sevenIsZero ∧ value = 7 then 0 else value

def insertValues (sevenIsZero : Bool) (last step : ℕ) : ℕ → ℕ → OrderedSet ℕ → OrderedSet ℕ
  | 0, _, values => values
  | fuel + 1, current, values =>
    if current ≤ last then
      insertValues sevenIsZero last step fuel (min (current + step) (2 ^ 32 - 1))
        (values.add (fieldValue sevenIsZero current))
    else values

def insertRange (sevenIsZero : Bool) (values : OrderedSet ℕ) (range : CronRange) : OrderedSet ℕ :=
  insertValues sevenIsZero range.last range.step (range.last + 1) range.first values

def parseField (min max : ℕ) (sevenIsZero : Bool) (raw : List Char) :
    Except String (OrderedSet ℕ × Bool) := do
  let ranges ← (raw.splitOn ',').mapM (parsePart min max)
  return (ranges.foldl (insertRange sevenIsZero) .empty,decide (raw = ['*']))

structure CronExpr where
  minute : OrderedSet ℕ
  hour : OrderedSet ℕ
  dom : OrderedSet ℕ
  month : OrderedSet ℕ
  dow : OrderedSet ℕ
  domStar : Bool
  dowStar : Bool

def CronExpr.matches (cron : CronExpr) (dt : DateTime) : Bool :=
  let dayMatch := match cron.domStar,cron.dowStar with
    | true, true => true
    | true, false => decide (dt.weekday ∈ cron.dow.keys)
    | false, true => decide (dt.day ∈ cron.dom.keys)
    | false, false => decide (dt.day ∈ cron.dom.keys) || decide (dt.weekday ∈ cron.dow.keys)
  decide (dt.minute ∈ cron.minute.keys) && decide (dt.hour ∈ cron.hour.keys) &&
    decide (dt.month ∈ cron.month.keys) && dayMatch

def parseCron (expr : String) : Except String CronExpr :=
  if expr = "@reboot" then .ok ⟨.empty,.empty,.empty,.empty,.empty,true,true⟩
  else
    match splitWhitespace expr.toList with
    | [minute,hour,dom,month,dow] => do
      let minute ← parseField 0 59 false minute
      let hour ← parseField 0 23 false hour
      let dom ← parseField 1 31 false dom
      let month ← parseField 1 12 false month
      let dow ← parseField 0 7 true dow
      return ⟨minute.1,hour.1,dom.1,month.1,dow.1,dom.2,dow.2⟩
    | _ => .error "cron expression must have exactly 5 fields"

def normalizeCronExpr (expr : String) : Except String String :=
  let trimmed := Text.trim expr
  let normalized :=
    if trimmed = "@hourly" then "0 * * * *"
    else if trimmed = "@daily" ∨ trimmed = "@midnight" then "0 0 * * *"
    else if trimmed = "@weekly" then "0 0 * * 0"
    else if trimmed = "@monthly" then "0 0 1 * *"
    else if trimmed = "@yearly" ∨ trimmed = "@annually" then "0 0 1 1 *"
    else trimmed
  if '%' ∈ normalized.toList then .error "cron % stdin syntax is not supported" else .ok normalized

/-- The date library's view of a time, if it has one. -/
def fromTimestamp (ts : ℤ) : Option DateTime :=
  if earliest ≤ ts ∧ ts ≤ latest then some (ofTimestamp ts) else none

/-- The given hour of the nth of the days of a month that fall on a weekday. -/
def nthWeekdayOfMonth (year : ℤ) (month weekday nth hour : ℕ) : ℤ :=
  match ((List.range' 1 31).filter (fun day => day ≤ daysInMonth year month ∧
      weekdayOf (daysFromCivil year month day) = weekday))[nth - 1]? with
  | some day => timestampOf year month day hour
  | none => 0

def isUsDst (utcTs standardOffsetHours : ℤ) : Bool :=
  match fromTimestamp utcTs with
  | none => false
  | some utc =>
    let startLocal := nthWeekdayOfMonth utc.year 3 0 2 2
    let endLocal := nthWeekdayOfMonth utc.year 11 0 1 2
    decide (startLocal - standardOffsetHours * 3600 ≤ utcTs ∧
      utcTs < endLocal - (standardOffsetHours + 1) * 3600)

/-- An offset written as a sign, hours, a colon and minutes; a text with other than six ASCII
characters is none. -/
def parseFixedOffset (raw : String) : Option ℤ :=
  match raw.toList with
  | [sign,h,h',colon,m,m'] =>
    match parseSigned [h,h'],parseSigned [m,m'] with
    | some hour, some minute =>
      if colon ≠ ':' ∨ 23 < hour ∨ 59 < minute then none
      else if sign = '+' then some (hour * 3600 + minute * 60)
      else if sign = '-' then some (-(hour * 3600 + minute * 60))
      else none
    | _, _ => none
  | _ => none

def timezoneOffsetSeconds (timezone : String) (utcTs : ℤ) : Except String ℤ :=
  if timezone ∈ ["UTC","Etc/UTC","Z"] then .ok 0
  else if timezone ∈ ["Asia/Shanghai","Asia/Chongqing","Asia/Hong_Kong"] then .ok (8 * 3600)
  else if timezone ∈ ["America/Los_Angeles","US/Pacific"] then
    .ok (if isUsDst utcTs (-8) then -7 * 3600 else -8 * 3600)
  else if timezone ∈ ["America/New_York","US/Eastern"] then
    .ok (if isUsDst utcTs (-5) then -4 * 3600 else -5 * 3600)
  else
    match parseFixedOffset timezone with
    | some offset => .ok offset
    | none => .error ("unsupported timezone " ++ backquoted timezone.toList ++ " without chrono-tz")

inductive ScheduleSpec where
  | cron (expr timezone : String) (calendar : Option String) (startAt endAt : Option ℤ)
  | once (runAt : ℤ) (timezone : Option String)
  | runEvery (everySec : ℕ) (startAt endAt : Option ℤ) (timezone : Option String)
deriving DecidableEq

def isRebootSchedule : ScheduleSpec → Bool
  | .cron expr _ _ _ _ => decide (expr = "@reboot")
  | _ => false

def roundToNextMinute (ts : ℤ) : ℤ := ts - ts % 60 + 60

def saturated (x : ℤ) : ℤ := max (-2 ^ 63) (min x (2 ^ 63 - 1))

def asI64 (x : ℕ) : ℤ := if x < 2 ^ 63 then x else x - 2 ^ 64

def searchMinutes (last : ℤ) (endAt : Option ℤ) (found : ℤ → Bool) : ℕ → ℤ → Option ℤ
  | 0, _ => none
  | fuel + 1, ts =>
    if ts ≤ last ∧ (∀ stop ∈ endAt, ts ≤ stop) then
      if found ts then some ts else searchMinutes last endAt found fuel (ts + 60)
    else none

def matchesAt (cron : CronExpr) (timezone : String) (ts : ℤ) : Bool :=
  match timezoneOffsetSeconds timezone ts with
  | .ok offset => (fromTimestamp (ts + offset)).any cron.matches
  | .error _ => false

def minutesOfYear : ℕ := 366 * 24 * 60

def searchFrom (startAt : Option ℤ) (afterTs : ℤ) : ℤ :=
  match startAt with
  | some start => max (roundToNextMinute afterTs) start
  | none => roundToNextMinute afterTs

/-- When a schedule fires next after a time; `now` is the reading of the clock. -/
def nextFireAfter (now : ℤ) (spec : ScheduleSpec) (afterTs : ℤ) : Option ℤ :=
  match spec with
  | .once runAt _ => if afterTs < runAt then some runAt else none
  | .runEvery everySec startAt endAt _ =>
    let every := asI64 everySec
    if every ≤ 0 then none
    else
      let start := startAt.getD (saturated (afterTs + every))
      let next :=
        if afterTs < start then start
        else saturated (start + saturated ((saturated (afterTs - start) / every + 1) * every))
      if ∃ stop ∈ endAt, stop < next then none else some next
  | .cron expr timezone _ startAt endAt =>
    if expr = "@reboot" then some now
    else
      match parseCron expr with
      | .error _ => none
      | .ok cron =>
        let ts := searchFrom startAt afterTs
        searchMinutes (saturated (ts + 60 * minutesOfYear)) endAt (matchesAt cron timezone)
          (minutesOfYear + 1) ts

def nextFireTimes (now : ℤ) (spec : ScheduleSpec) : ℕ → ℤ → List ℤ
  | 0, _ => []
  | count + 1, afterTs =>
    match nextFireAfter now spec afterTs with
    | none => []
    | some next => next :: nextFireTimes now spec count next

def asInt64 : Json → Option ℤ
  | .number text => (parseSigned text.toList).filter (fun n => -2 ^ 63 ≤ n ∧ n < 2 ^ 63)
  | _ => none

def asUInt64 : Json → Option ℕ
  | .number text => (digitsValue text.toList).filter (fun n => n < 2 ^ 64)
  | _ => none

def scheduleSpecFromValue (now : ℤ) (value : Json) : Except String ScheduleSpec :=
  let text (name : String) : Option String := (value.get? name).bind Json.asStr
  let time (name : String) : Option ℤ := (value.get? name).bind asInt64
  match text "kind" with
  | none => .error "missing schedule.kind"
  | some "cron" =>
    match text "expr" with
    | none => .error "missing schedule.expr"
    | some expr => do
      let timezone := (text "timezone").getD "UTC"
      let expr ← normalizeCronExpr expr
      let _ ← timezoneOffsetSeconds timezone now
      let _ ← parseCron expr
      return .cron expr timezone (text "calendar") (time "start_at") (time "end_at")
  | some "once" =>
    match time "run_at" with
    | none => .error "missing schedule.run_at"
    | some runAt => .ok (.once runAt (text "timezone"))
  | some "run_every" =>
    match (value.get? "every_sec").bind asUInt64 with
    | none => .error "missing schedule.every_sec"
    | some everySec =>
      if everySec = 0 then .error "schedule.every_sec must be greater than zero"
      else
        match text "timezone" with
        | none => .ok (.runEvery everySec (time "start_at") (time "end_at") none)
        | some timezone => do
          let _ ← timezoneOffsetSeconds timezone now
          return .runEvery everySec (time "start_at") (time "end_at") (some timezone)
  | some other => .error ("unsupported schedule.kind " ++ backquoted other.toList)

end BuckyOS.Workflow
