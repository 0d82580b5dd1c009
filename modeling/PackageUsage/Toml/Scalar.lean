import PackageUsage.Settings.Value
import PackageUsage.Toml.Text

namespace PackageUsage.Toml

open Settings (Value)
open Json.Reader (hexValue?)
open Text.Number (digitsValue maxDigits)

/-- Just `n` digits. -/
def digits (n : Nat) (cs : List Char) : Option (Nat × List Char) :=
  let ds := cs.take n
  if ds.length = n && ds.all Char.isDigit then some (digitsValue ds, cs.drop n) else none

def mark (c : Char) : List Char → Option (List Char)
  | d :: rest => if c = d then some rest else none
  | [] => none

def pair (low high : Nat) (cs : List Char) : Option (Nat × List Char) := do
  let (n, rest) ← digits 2 cs
  if low ≤ n ∧ n ≤ high then some (n, rest) else none

/-- A fraction of a second in microseconds; further digits are passed over. -/
def fraction (cs : List Char) : Nat × List Char :=
  match cs with
  | '.' :: rest =>
    let (ds, after) := rest.span Char.isDigit
    if ds.isEmpty then (0, cs)
    else
      let ds := ds.take 6
      (digitsValue (ds ++ List.replicate (6 - ds.length) '0'), after)
  | _ => (0, cs)

def time (cs : List Char) : Option (ClockTime × List Char) := do
  let (hour, cs) ← pair 0 23 cs
  let (minute, cs) ← pair 0 59 (← mark ':' cs)
  let (second, cs) ← pair 0 59 (← mark ':' cs)
  let (microsecond, cs) := fraction cs
  some (⟨hour, minute, second, microsecond⟩, cs)

def date (cs : List Char) : Option (CalendarDate × List Char) := do
  let (year, cs) ← digits 4 cs
  let (month, cs) ← pair 1 12 (← mark '-' cs)
  let (day, cs) ← pair 1 31 (← mark '-' cs)
  some (⟨year, month, day⟩, cs)

def offset (cs : List Char) : Option (Int × List Char) :=
  match cs with
  | c :: rest =>
    if c = 'Z' ∨ c = 'z' then some (0, rest)
    else if c = '+' ∨ c = '-' then do
      let (hour, rest) ← pair 0 23 rest
      let (minute, rest) ← pair 0 59 (← mark ':' rest)
      let minutes : Int := (hour * 60 + minute : Nat)
      some (if c = '-' then -minutes else minutes, rest)
    else none
  | [] => none

/-- A time after a date, with an offset if there is one. -/
def timeOfDay (cs : List Char) : Option (ClockTime × Option Int × List Char) :=
  match cs with
  | c :: rest =>
    if c = 'T' ∨ c = 't' ∨ c = ' ' then do
      let (t, rest) ← time rest
      match offset rest with
      | some (o, rest) => some (t, some o, rest)
      | none => some (t, none, rest)
    else none
  | [] => none

/-- A date or a time, if one comes next: the outer option tells whether one begins. -/
def moment? (cs : List Char) : Option (Option (Moment × List Char)) :=
  match date cs with
  | some (d, rest) =>
    if !d.isValid then some none
    else match timeOfDay rest with
      | some (t, o, rest) => some (some (.instant d t o, rest))
      | none => some (some (.day d, rest))
  | none => (time cs).map fun (t, rest) => some (.time t, rest)

/-- Digits with single underscores between them. -/
def digitRun (isDigit : Char → Bool) : List Char → List Char × List Char
  | c :: '_' :: d :: rest =>
    if !isDigit c then ([], c :: '_' :: d :: rest)
    else if !isDigit d then ([c], '_' :: d :: rest)
    else
      let (ds, rest) := digitRun isDigit (d :: rest)
      (c :: ds, rest)
  | c :: rest =>
    if !isDigit c then ([], c :: rest)
    else
      let (ds, rest) := digitRun isDigit rest
      (c :: ds, rest)
  | [] => ([], [])

/-- The bases that a letter after a zero announces. -/
def base? : Char → Option Nat
  | 'x' => some 16
  | 'o' => some 8
  | 'b' => some 2
  | _ => none

def based? : List Char → Option (Value × List Char)
  | '0' :: letter :: rest => do
    let base ← base? letter
    let (ds, rest) := digitRun (fun c => (hexValue? c).any (· < base)) rest
    if ds.isEmpty then none
    let n := ds.foldl (fun acc c => acc * base + (hexValue? c).getD 0) 0
    some (.whole n, rest)
  | _ => none

/-- The digits before the point: a zero by itself, or a run that begins with another digit. -/
def integerPart : List Char → List Char × List Char
  | '0' :: rest => (['0'], rest)
  | cs => digitRun Char.isDigit cs

def fractionPart (cs : List Char) : List Char × List Char :=
  match cs with
  | '.' :: rest =>
    match digitRun Char.isDigit rest with
    | ([], _) => ([], cs)
    | found => found
  | _ => ([], cs)

def exponentPart (cs : List Char) : Option Int × List Char :=
  match cs with
  | c :: rest =>
    if c = 'e' ∨ c = 'E' then
      let (negative, rest) := Text.Number.sign rest
      match digitRun Char.isDigit rest with
      | ([], _) => (none, cs)
      | (ds, rest) =>
        let n : Int := digitsValue ds
        (some (if negative then -n else n), rest)
    else (none, cs)
  | [] => (none, [])

/-- A decimal number, whole unless a fraction or an exponent makes it real. The outer option tells
whether one begins. -/
def decimal? (cs : List Char) : Option (Option (Value × List Char)) :=
  let (negative, rest) := Text.Number.sign cs
  match integerPart rest with
  | ([], _) => none
  | (int, rest) =>
    let (frac, rest) := fractionPart rest
    match frac, exponentPart rest with
    | [], (none, rest) =>
      let n : Int := digitsValue int
      if maxDigits < int.length then some none
      else some (some (.whole (if negative then -n else n), rest))
    | _, (e, rest) =>
      let x := Decimal.nearest negative (digitsValue (int ++ frac)) (e.getD 0 - frac.length)
      some (some (.real x, rest))

/-- The words for numbers that have no digits, with an optional sign. -/
def numberWord? (cs : List Char) : Option (Value × List Char) :=
  let (negative, rest) := Text.Number.sign cs
  match rest with
  | 'i' :: 'n' :: 'f' :: rest => some (.real (if negative then -1.0 / 0.0 else 1.0 / 0.0), rest)
  | 'n' :: 'a' :: 'n' :: rest => some (.real (0.0 / 0.0), rest)
  | _ => none

def flag? : List Char → Option (Value × List Char)
  | 't' :: 'r' :: 'u' :: 'e' :: rest => some (.flag true, rest)
  | 'f' :: 'a' :: 'l' :: 's' :: 'e' :: rest => some (.flag false, rest)
  | _ => none

def scalar (cs : List Char) : Option (Value × List Char) :=
  match string? cs, moment? cs with
  | some s, _ => s.map fun (s, rest) => (.text s, rest)
  | none, some m => m.map fun (m, rest) => (.moment m, rest)
  | none, none =>
    match (flag? cs).or (based? cs), decimal? cs with
    | some found, _ => some found
    | none, some number => number
    | none, none => numberWord? cs

end PackageUsage.Toml
