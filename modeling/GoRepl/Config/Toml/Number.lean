import GoRepl.Config.Toml.Value
import GoRepl.Config.Toml.Scan

/-! # TOML numbers and dates

* `Scan.dateTime`: dates, times and both, checked against the calendar.
* `Scan.float`, `Scan.integer`: numbers within the range of 64 bits.
* `Scan.number`: what starts with a digit or sign.
-/

namespace GoRepl.Toml.Scan

/-! ## Digits -/

/-- The number that decimal digits spell. -/
def decimal (ds : List Char) : Nat := ds.foldl (fun n d => 10 * n + (d.toNat - '0'.toNat)) 0

/-- Takes a number of `n` digits between two bounds. -/
def digitsIn (n low high : Nat) : Scan Nat := fun cs =>
  let ds := cs.take n
  let v := decimal ds
  if ds.length = n ∧ ds.all Char.isDigit ∧ low ≤ v ∧ v ≤ high then some (v, cs.drop n) else none

/-- Takes digits of a kind with single underscores between them; `n` bounds their number. -/
def groupedTail (isDigit : Char → Bool) : Nat → Scan (List Char)
  | 0 => pure []
  | n + 1 => do
    match ← peek with
    | some c =>
      if isDigit c then
        let d ← one isDigit
        let ds ← groupedTail isDigit n
        return d :: ds
      else if c == '_' then
        char '_'
        let d ← one isDigit
        let ds ← groupedTail isDigit n
        return d :: ds
      else return []
    | none => return []

/-- Takes one or more digits of a kind with single underscores between them. -/
def grouped (isDigit : Char → Bool) : Scan (List Char) := do
  let d ← one isDigit
  let ds ← groupedTail isDigit (← left)
  return d :: ds

/-- Takes a sign; tells if it is a minus. -/
def sign : Scan Bool := do
  match ← opt (one fun c => c == '+' || c == '-') with
  | some c => return c == '-'
  | none => return false

/-- Takes the digits of a decimal number, where a zero stands alone. -/
def wholeDigits : Scan (List Char) := do
  if (← peek) == some '0' then
    char '0'
    return ['0']
  else grouped Char.isDigit

/-! ## Dates and times -/

/-- The number of days in a month. -/
def daysIn (year month : Nat) : Nat :=
  if month = 2 then
    if year % 4 = 0 ∧ (year % 100 ≠ 0 ∨ year % 400 = 0) then 29 else 28
  else if month ∈ [4, 6, 9, 11] then 30
  else 31

def date : Scan Unit := do
  let year ← digitsIn 4 0 9999
  char '-'
  let month ← digitsIn 2 1 12
  char '-'
  let _ ← digitsIn 2 1 (daysIn year month)

def time : Scan Unit := do
  let _ ← digitsIn 2 0 23
  char ':'
  let _ ← digitsIn 2 0 59
  char ':'
  let _ ← digitsIn 2 0 60
  if (← peek) == some '.' then
    char '.'
    let _ ← one Char.isDigit
    let _ ← many Char.isDigit

/-- Takes the difference from universal time, if there is one. -/
def offset : Scan Unit := do
  match ← peek with
  | some 'Z' | some 'z' => do let _ ← one fun _ => true
  | some '+' | some '-' => do
    let _ ← one fun _ => true
    let _ ← digitsIn 2 0 23
    char ':'
    let _ ← digitsIn 2 0 59
  | _ => pure ()

/-- Takes a date, a date with a time, or a time. -/
def dateTime : Scan Unit :=
  (do
    date
    let _ ← opt do
      let _ ← one fun c => c == 'T' || c == 't' || c == ' '
      time
      offset) <|>
  time

/-! ## Numbers -/

/-- The least number that is too large for an integer of 64 bits. -/
def integerBound : Nat := 0x8000000000000000

/-- Takes an integer of 64 bits, in base 16, 8 or 2 behind its mark, or in base 10 with a sign. -/
def integer : Scan Unit :=
  (do text ['0', 'x']; fits (hexValue (← grouped Number.isHexDigit))) <|>
  (do text ['0', 'o']; fits (based 8 (← grouped fun c => '0' ≤ c && c ≤ '7'))) <|>
  (do text ['0', 'b']; fits (based 2 (← grouped fun c => c == '0' || c == '1'))) <|>
  do
    let negative ← sign
    let n := decimal (← wholeDigits)
    if n < integerBound ∨ negative ∧ n = integerBound then pure () else failure
where
  /-- The number that digits spell in a base. -/
  based (b : Nat) (ds : List Char) : Nat :=
    ds.foldl (fun n d => b * n + (d.toNat - '0'.toNat)) 0
  /-- Fails if the number is too large. -/
  fits (n : Nat) : Scan Unit := if n < integerBound then pure () else failure

/-- Whether `m · 10 ^ e` is rounded to infinity in 64 bits: from half a unit above the largest
finite number on. -/
def overflows (m : Nat) (e : Int) : Bool :=
  let size : Int := (Nat.toDigits 10 m).length + e
  if m = 0 ∨ size < 300 then false
  else if 320 < size then true
  else
    let limit := Nat.pow 2 1024 - Nat.pow 2 970
    if 0 ≤ e then limit ≤ m * Nat.pow 10 e.toNat else limit * Nat.pow 10 (-e).toNat ≤ m

/-- Takes the exponent of a number, if there is one. -/
def exponent? : Scan (Option Int) := do
  match ← opt (one fun c => c == 'e' || c == 'E') with
  | none => return none
  | some _ => do
    let negative ← sign
    let n : Int := decimal (← grouped Char.isDigit)
    return some (if negative then -n else n)

/-- Takes a number with a fraction or an exponent, which must not be too large. -/
def finite : Scan Unit := do
  let negative ← sign
  let whole ← wholeDigits
  let fraction ← if (← peek) == some '.' then do
      char '.'
      grouped Char.isDigit
    else pure []
  let exponent ← exponent?
  if fraction.isEmpty && exponent.isNone then failure
  let e := exponent.getD 0 - fraction.length
  if !negative && overflows (decimal (whole ++ fraction)) e then failure

/-- Takes a number with a fraction or an exponent, or an infinity, or what is no number. -/
def float : Scan Unit :=
  finite <|> do
    let _ ← sign
    text ['i', 'n', 'f'] <|> text ['n', 'a', 'n']

/-- Takes a date or a number. -/
def number : Scan Value :=
  (do dateTime; return .datetime) <|> (do float; return .float) <|>
    (do integer; return .integer)

end GoRepl.Toml.Scan
