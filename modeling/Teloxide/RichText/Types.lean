import Teloxide.Core.Utf8

/-!
# Rich-text documents

The data of `crates/teloxide/src/utils/time/model.rs` and `error.rs`, and the parser
of time expressions. The calendar library is a parameter (`Calendar`): what it
parses a literal into, and the two fields that are read of a clock value.
-/
namespace Teloxide.RichText

open Teloxide.Core Teloxide.Core.Utf8

/-- `jiff::civil`: the types, and `str::parse` for them. -/
structure Calendar where
  Time : Type
  Date : Type
  DateTime : Type
  parseTime : Str → Option Time
  parseDate : Str → Option Date
  parseDateTime : Str → Option DateTime
  /-- `second() != 0 || nanosecond() != 0` -/
  timeSeconds : Time → Bool
  dateTimeSeconds : DateTime → Bool

/-- What the parsers take from outside of the repository. -/
structure Platform where
  alphanumeric : Alphanumeric
  calendar : Calendar

variable (E : Platform)

/-- mirrors model.rs:44-49 -/
inductive DateTimeFormat where
  | time
  | date
  | dateTime
  | relative
  deriving DecidableEq, Repr

/-- mirrors model.rs:60-63 -/
structure SignedTimeSpan where
  seconds : Int
  deriving DecidableEq, Repr

/-- mirrors model.rs:129-136 -/
inductive TimeExpression where
  | clock (time : E.calendar.Time)
  | civilDate (date : E.calendar.Date)
  | civilDateTime (dateTime : E.calendar.DateTime)
  | now (offset : SignedTimeSpan)
  | variable (name : Str) (offset : SignedTimeSpan)

/-- `std::ops::Range<usize>` -/
structure SourceRange where
  start : Nat
  stop : Nat
  deriving DecidableEq, Repr

/-- mirrors model.rs:139-144 -/
structure DateTimeNode where
  expression : TimeExpression E
  format : DateTimeFormat
  sourceRange : SourceRange

/-- mirrors model.rs:8-14 -/
inductive LinkTarget where
  | literal (destination : Str)
  | alias (name : Str)
  deriving DecidableEq, Repr

/-- mirrors model.rs:148-168 -/
inductive RichNode where
  | text (content : Str)
  | dateTime (node : DateTimeNode E)
  | invalidTime (literal : Str) (sourceRange : SourceRange)
  | link (label : List RichNode) (target : LinkTarget) (sourceRange : SourceRange)
  | customEmoji (name : Str) (sourceRange : SourceRange)

/-- mirrors error.rs:16-24; the errors of the calendar library are left out -/
inductive TimeError where
  | unknownBinding (name : Str)
  | invalidCivil
  | overflow
  deriving DecidableEq, Repr

/-- mirrors error.rs:26-47 -/
inductive RenderError where
  | invalidMarkup (dialect : String) (byteOffset line column : Nat) (literal : Str) (message : String)
  | unknownBinding (name : Str) (byteOffset line column : Nat)
  | normalization (byteOffset line column : Nat) (source : TimeError)
  deriving DecidableEq, Repr

/-- mirrors error.rs:86-93 -/
def lineColumn (source : Str) (byteOffset : Nat) : Checked (Nat × Nat) := do
  let before ← sliceTo source (min byteOffset (len source))
  .ok (before.count '\n' + 1, (before.reverse.takeWhile (· ≠ '\n')).length + 1)

/-- mirrors error.rs:51-68 -/
def RenderError.invalid (dialect : String) (source : Str) (byteOffset : Nat) (literal : Str) (message : String) :
    Checked RenderError := do
  let (line, column) ← lineColumn source byteOffset
  .ok (.invalidMarkup dialect byteOffset line column literal message)

variable {E}

/-! ## Time spans -/

def i128Max : Nat := 2 ^ 127 - 1
def i64Max : Nat := 2 ^ 63 - 1

/-- `str::parse` of a run of ASCII digits. -/
def parseDigits (digits : Str) : Nat := digits.foldl (fun n c => n * 10 + (c.toNat - '0'.toNat)) 0

/-- The factor of a unit.
mirrors model.rs:99-106 -/
def unitSeconds (unit : Option UInt8) : Option Nat :=
  if unit = some (byteOf 's') then some 1
  else if unit = some (byteOf 'm') then some 60
  else if unit = some (byteOf 'h') then some (60 * 60)
  else if unit = some (byteOf 'd') then some (24 * 60 * 60)
  else if unit = some (byteOf 'w') then some (7 * 24 * 60 * 60)
  else none

/-- The loop of `parse_unsigned`.
mirrors model.rs:87-112 -/
def parseComponents (input : Str) : Nat → Nat → Nat → Checked (Except String Nat)
  | 0, _, _ => .error .diverges
  | fuel + 1, index, total =>
    if len input ≤ index then .ok (.ok total)
    else
      let start := index
      let index := runEnd isDigitByte input index
      if start = index then .ok (.error "time span must contain a positive integer and a unit")
      else do
        let number := parseDigits (← slice input start index)
        if i128Max < number then .ok (.error "time span number is too large")
        else
          match unitSeconds (byteAt input index) with
          | none => .ok (.error "unsupported time span unit")
          | some seconds =>
            if i128Max < number * seconds then .ok (.error "time span is too large")
            else if i128Max < total + number * seconds then .ok (.error "time span is too large")
            else parseComponents input fuel (index + 1) (total + number * seconds)

/-- The text is not empty at the loop, so it counts a component or fails: the check for none
behind it never holds.
mirrors model.rs:76-118 -/
def SignedTimeSpan.parseUnsigned (input : Str) : Checked (Except String SignedTimeSpan) :=
  let input := trim input
  if input = [] then .ok (.error "time span is empty")
  else do
    match ← parseComponents input (len input + 1) 0 0 with
    | .error message => .ok (.error message)
    | .ok total => if i64Max < total then .ok (.error "time span is too large") else .ok (.ok ⟨total⟩)

/-- mirrors model.rs:188-203 -/
def parseSignedOffset (input : Str) : Checked (Except String SignedTimeSpan) :=
  let input := trim input
  if input = [] then .ok (.error "time offset is empty")
  else
    let first := byteAt input 0
    if first = some (byteOf '+') ∨ first = some (byteOf '-') then do
      match ← SignedTimeSpan.parseUnsigned (← sliceFrom input 1) with
      | .error message => .ok (.error message)
      | .ok span => .ok (.ok ⟨if first = some (byteOf '-') then -span.seconds else span.seconds⟩)
    else .ok (.error "time offset must start with `+` or `-`")

/-! ## Time expressions -/

def isAlphaByte (b : UInt8) : Bool := (byteOf 'a' ≤ b && b ≤ byteOf 'z') || (byteOf 'A' ≤ b && b ≤ byteOf 'Z')

/-- mirrors model.rs:259-282 -/
def splitVariable (input : Str) : Checked (Except String (Str × SignedTimeSpan)) :=
  let first := byteAt input 0
  if first.any fun b => !(isAlphaByte b || b = byteOf '_') then
    .ok (.error "binding name must start with a letter or underscore")
  else
    let stop := runEnd (fun b => isAlphaByte b || isDigitByte b || b = byteOf '_') input 0
    if stop = 0 then .ok (.error "binding name is empty")
    else do
      let name ← sliceTo input stop
      let rest := trim (← sliceFrom input stop)
      if rest = [] then .ok (.ok (name, ⟨0⟩))
      else
        match ← parseSignedOffset rest with
        | .error message => .ok (.error message)
        | .ok offset => .ok (.ok (name, offset))

/-- mirrors model.rs:206-256 -/
def parseExpression (E : Platform) (input : Str) : Checked (Except String (TimeExpression E)) :=
  let input := trim input
  if input = [] then .ok (.error "time expression is empty")
  else
    match stripPrefix "now".toList input with
    | some rest =>
      if trim rest = [] then .ok (.ok (.now ⟨0⟩))
      else do
        match ← parseSignedOffset rest with
        | .error message => .ok (.error message)
        | .ok offset => .ok (.ok (.now offset))
    | none =>
      match stripPrefix ['$'] input with
      | some rest => do
        match ← splitVariable rest with
        | .error message => .ok (.error message)
        | .ok (name, offset) => .ok (.ok (.variable name offset))
      | none =>
        if len input = 5 then
          match E.calendar.parseTime input with
          | none => .ok (.error "invalid clock value")
          | some time =>
            if E.calendar.timeSeconds time then .ok (.error "seconds are not supported in civil literals")
            else .ok (.ok (.clock time))
        else if len input = 10 then
          match E.calendar.parseDate input with
          | none => .ok (.error "invalid civil date")
          | some date => .ok (.ok (.civilDate date))
        else if len input = 16 ∧
            (byteAt input 10 = some (byteOf 'T') ∨ byteAt input 10 = some (byteOf ' ')) then
          -- `replacen(' ', "T", 1)`
          let normalized := if byteAt input 10 = some (byteOf ' ') then input.replace ' ' 'T' else input
          match E.calendar.parseDateTime normalized with
          | none => .ok (.error "invalid civil datetime")
          | some dateTime =>
            if E.calendar.dateTimeSeconds dateTime then .ok (.error "seconds are not supported in civil literals")
            else .ok (.ok (.civilDateTime dateTime))
        else .ok (.error "unsupported time expression")

/-! ## A platform to run on -/

/-- Clocks `HH:MM`, and dates that are kept as they are written. -/
def plainCalendar : Calendar where
  Time := Nat × Nat
  Date := Str
  DateTime := Str
  parseTime
    | [a, b, ':', c, d] =>
      let hours := parseDigits [a, b]
      let minutes := parseDigits [c, d]
      if [a, b, c, d].all Char.isDigit ∧ hours < 24 ∧ minutes < 60 then some (hours, minutes) else none
    | _ => none
  parseDate := some
  parseDateTime := some
  timeSeconds _ := false
  dateTimeSeconds _ := false

/-- The letters of Latin and Cyrillic. -/
def plainPlatform : Platform where
  alphanumeric := {
    test := fun c => c.isAlphanum || (0x400 ≤ c.toNat && c.toNat ≤ 0x481)
    ascii := fun c hc => by
      have hlt : c.toNat < 128 := of_decide_eq_true hc
      have hno : (0x400 ≤ c.toNat && c.toNat ≤ 0x481) = false := by
        rw [Bool.and_eq_false_iff]
        exact .inl (decide_eq_false (by omega))
      rw [hno, Bool.or_false] }
  calendar := plainCalendar

end Teloxide.RichText
