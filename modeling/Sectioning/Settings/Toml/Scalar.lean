/-
TOML numbers, truth values, dates and times.

Each is a word of letters, digits and a few signs, and is read as a whole.
-/
import Sectioning.Settings.Toml.Value

namespace Sectioning
namespace Toml

/-- The characters of a word. -/
def isWordChar (c : Char) : Bool :=
  c.isAlphanum || c == '_' || c == '+' || c == '-' || c == '.' || c == ':'

/-- The value of a digit in a base up to 16. -/
def digit? (base : Nat) (c : Char) : Option Nat :=
  let n :=
    if c.isDigit then c.toNat - '0'.toNat
    else if 'a' ≤ c ∧ c ≤ 'f' then c.toNat - 'a'.toNat + 10
    else if 'A' ≤ c ∧ c ≤ 'F' then c.toNat - 'A'.toNat + 10
    else base
  if n < base then some n else none

/-- The digits of a numeral.  An underscore may stand between two digits. -/
def digits? (base : Nat) : List Char → Option (List Nat)
  | [] => none
  | [c] => (digit? base c).map fun d => [d]
  | c :: '_' :: cs =>
    (digit? base c).bind fun d => (digits? base cs).map (d :: ·)
  | c :: cs =>
    (digit? base c).bind fun d => (digits? base cs).map (d :: ·)

def ofDigits (base : Nat) (ds : List Nat) : Nat :=
  ds.foldl (fun n d => n * base + d) 0

/-- A numeral in base ten, which starts with zero only if that is all. -/
def decimal? (cs : List Char) : Option (List Nat) :=
  (digits? 10 cs).filter fun ds => ds.length == 1 || ds.head? != some 0

/-- A sign and what follows it. -/
def signed : List Char → Bool × List Char
  | '-' :: cs => (true, cs)
  | '+' :: cs => (false, cs)
  | cs => (false, cs)

/-- Integers have 64 bits. -/
def integer? : List Char → Option Int
  | '0' :: 'x' :: cs => positive? 16 cs
  | '0' :: 'o' :: cs => positive? 8 cs
  | '0' :: 'b' :: cs => positive? 2 cs
  | cs =>
    let (negative, cs) := signed cs
    (decimal? cs).bind fun ds =>
      let n := ofDigits 10 ds
      if negative then if n ≤ Nat.pow 2 63 then some (-(n : Int)) else none
      else if n < Nat.pow 2 63 then some (n : Int) else none
where
  positive? (base : Nat) (cs : List Char) : Option Int :=
    (digits? base cs).bind fun ds =>
      if ofDigits base ds < Nat.pow 2 63 then some (ofDigits base ds : Int) else none

/-- Whether `m * 10 ^ e` is past the largest number of double precision. -/
def overflows (m : Nat) (e : Int) : Bool :=
  let size : Int := (Nat.toDigits 10 m).length + e
  let bound := Nat.pow 2 1024 - Nat.pow 2 970
  m != 0 &&
    (decide (size > 400) ||
      (decide (size > 300) &&
        (if e ≥ 0 then decide (bound ≤ m * Nat.pow 10 e.toNat) else decide (bound * Nat.pow 10 (-e).toNat ≤ m))))

/-- The parts of a text before and after the first character of a kind. -/
def splitFirst (p : Char → Bool) (cs : List Char) : List Char × Option (List Char) :=
  (cs.takeWhile (!p ·), (cs.dropWhile (!p ·)).tail?)

/-- Whether a word is a number with a fraction, an exponent or both.  A number past
the range of double precision is refused, but one below it counts as infinite. -/
def isFloat (word : List Char) : Bool :=
  let (negative, cs) := signed word
  if cs = "inf".toList ∨ cs = "nan".toList then true
  else
    let (mantissa, exponent) := splitFirst (fun c => c == 'e' || c == 'E') cs
    let (whole, fraction) := splitFirst (· == '.') mantissa
    if exponent.isNone && fraction.isNone then false
    else
      match decimal? whole, fraction.elim (some []) (digits? 10),
          exponent.elim (some (0 : Int)) power? with
      | some ds, some fs, some e =>
        negative || !overflows (ofDigits 10 (ds ++ fs)) (e - fs.length)
      | _, _, _ => false
where
  power? (cs : List Char) : Option Int :=
    let (negative, cs) := signed cs
    (digits? 10 cs).map fun ds =>
      let n : Int := ofDigits 10 ds
      if negative then -n else n

/-- A number of exactly two digits. -/
def twoDigits? : List Char → Option Nat
  | [a, b] => (digits? 10 [a, b]).map (ofDigits 10)
  | _ => none

def daysIn (year month : Nat) : Nat :=
  if month = 2 then
    if year % 4 = 0 ∧ (year % 100 ≠ 0 ∨ year % 400 = 0) then 29 else 28
  else if month = 4 ∨ month = 6 ∨ month = 9 ∨ month = 11 then 30
  else 31

def isDate : List Char → Bool
  | [a, b, c, d, '-', e, f, '-', g, h] =>
    match twoDigits? [a, b], twoDigits? [c, d], twoDigits? [e, f], twoDigits? [g, h] with
    | some high, some low, some month, some day =>
      1 ≤ month && month ≤ 12 && 1 ≤ day && day ≤ daysIn (high * 100 + low) month
    | _, _, _, _ => false
  | _ => false

/-- Hours and minutes. -/
def isHourMinute : List Char → Bool
  | [a, b, ':', c, d] =>
    match twoDigits? [a, b], twoDigits? [c, d] with
    | some hour, some minute => hour ≤ 23 && minute ≤ 59
    | _, _ => false
  | _ => false

/-- A time of day.  A minute may have a leap second. -/
def isTime (cs : List Char) : Bool :=
  isHourMinute (cs.take 5) &&
    match cs.drop 5 with
    | ':' :: a :: b :: fraction =>
      (twoDigits? [a, b]).any (· ≤ 60) &&
        match fraction with
        | [] => true
        | '.' :: c :: ds => (c :: ds).all Char.isDigit
        | _ => false
    | _ => false

/-- A time of day with the distance to universal time, if any. -/
def isTimeWithOffset (cs : List Char) : Bool :=
  isTime cs ||
    (match cs.getLast? with
      | some c => (c == 'Z' || c == 'z') && isTime cs.dropLast
      | none => false) ||
    (match cs.drop (cs.length - 6) with
      | sign :: offset =>
        (sign == '+' || sign == '-') && isHourMinute offset && isTime (cs.take (cs.length - 6))
      | [] => false)

def isMoment (cs : List Char) : Bool :=
  isDate cs || isTime cs ||
    (isDate (cs.take 10) &&
      match cs.drop 10 with
      | c :: time => (c == 'T' || c == 't' || c == ' ') && isTimeWithOffset time
      | [] => false)

/-- The value of a word. -/
def word? (cs : List Char) : Option Value :=
  if cs = "true".toList then some (.boolean true)
  else if cs = "false".toList then some (.boolean false)
  else
    match integer? cs with
    | some n => some (.integer n)
    | none =>
      if isFloat cs then some (.float (String.ofList cs))
      else if isMoment cs then some (.moment (String.ofList cs))
      else none

end Toml
end Sectioning
