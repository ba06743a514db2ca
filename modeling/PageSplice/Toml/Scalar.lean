import PageSplice.Toml.Value
import PageSplice.Text.Occurrence

/-!
# Strings, numbers and dates of a TOML document

Each reader takes one scalar from the beginning of a text and gives its value and the rest.  It
takes the longest scalar there is; what may not follow it is found out by whoever reads on.
-/

namespace PageSplice.Toml

open Text

/-- Takes a value from the beginning of a text. -/
abbrev Reader (α : Type) := Text → Option (α × Text)

/-! ## Characters -/

def isSpace (c : Char) : Bool := c == ' ' || c == '\t'

/-- A tab, or any character from the space on but the delete character. -/
def isPlain (c : Char) : Bool := c == '\t' || (' ' ≤ c && c != '\x7f')

def isBareKeyChar (c : Char) : Bool := c.isAlphanum || c == '_' || c == '-'

def isHexDigit (c : Char) : Bool := c.isDigit || ('a' ≤ c && c ≤ 'f') || ('A' ≤ c && c ≤ 'F')

/-- The rest after a line feed, alone or behind a carriage return. -/
def newline? : Text → Option Text
  | '\n' :: r => some r
  | '\r' :: '\n' :: r => some r
  | _ => none

def hexValue (c : Char) : Nat :=
  if c.isDigit then c.toNat - '0'.toNat
  else if 'a' ≤ c then c.toNat - 'a'.toNat + 10
  else c.toNat - 'A'.toNat + 10

/-- The number that digits of a base below seventeen write. -/
def number (base : Nat) (ds : Text) : Nat := ds.foldl (fun n c => n * base + hexValue c) 0

/-! ## Strings -/

/-- The character with a hexadecimal number; surrogates are none. -/
def charOf? (ds : Text) : Option Char :=
  if ds.all isHexDigit then
    let n := number 16 ds
    if h : n.isValidChar then some (Char.ofNatAux n h) else none
  else none

/-- What stands behind a backslash. -/
def escape? : Reader Char
  | 'b' :: r => some ('\x08', r)
  | 't' :: r => some ('\t', r)
  | 'n' :: r => some ('\n', r)
  | 'f' :: r => some ('\x0c', r)
  | 'r' :: r => some ('\r', r)
  | '"' :: r => some ('"', r)
  | '\\' :: r => some ('\\', r)
  | 'u' :: r => if r.length < 4 then none else (charOf? (r.take 4)).map (·, r.drop 4)
  | 'U' :: r => if r.length < 8 then none else (charOf? (r.take 8)).map (·, r.drop 8)
  | _ => none

def push (c : Char) : Option (Text × Text) → Option (Text × Text) :=
  Option.map fun (s, r) => (c :: s, r)

/-- The rest of a string in double quotes, on one line. -/
def basicTail : Nat → Reader Text
  | 0, _ => none
  | fuel + 1, t =>
    match t with
    | '"' :: r => some ([], r)
    | '\\' :: r =>
      match escape? r with
      | some (c, r) => push c (basicTail fuel r)
      | none => none
    | c :: r => if isPlain c then push c (basicTail fuel r) else none
    | [] => none

/-- The rest of a string in single quotes, on one line. -/
def literalTail : Reader Text
  | '\'' :: r => some ([], r)
  | c :: r => if isPlain c then push c (literalTail r) else none
  | [] => none

/-- Quotes that end a string of several lines: three, and up to two more that belong to it. -/
def closingQuotes (q : Char) (t : Text) : Option (Text × Text) :=
  let n := (t.takeWhile (· == q)).length
  if n < 3 then none
  else some (List.replicate (min n 5 - 3) q, t.drop (min n 5))

def skipSpaces (t : Text) : Text := t.dropWhile isSpace

def skipBlankLines : Nat → Text → Text
  | 0, t => t
  | fuel + 1, t =>
    match newline? (skipSpaces t) with
    | some r => skipBlankLines fuel r
    | none => skipSpaces t

/-- The text behind a backslash that ends a line: blanks and line ends are skipped. -/
def joinedLine? (t : Text) : Option Text :=
  (newline? (skipSpaces t)).map fun r => skipBlankLines (r.length + 1) r

/-- The rest of a string of several lines.  A line end within it is a line feed. -/
def multilineTail (q : Char) : Nat → Reader Text
  | 0, _ => none
  | fuel + 1, t =>
    match closingQuotes q t with
    | some (s, r) => some (s, r)
    | none =>
      match newline? t with
      | some r => push '\n' (multilineTail q fuel r)
      | none =>
        match t with
        | '\\' :: r =>
          if q == '"' then
            match joinedLine? r with
            | some r => multilineTail q fuel r
            | none =>
              match escape? r with
              | some (c, r) => push c (multilineTail q fuel r)
              | none => none
          else push '\\' (multilineTail q fuel r)
        | c :: r => if isPlain c then push c (multilineTail q fuel r) else none
        | [] => none

/-- A string on one line, as a key may be written too. -/
def quoted : Reader Text
  | '"' :: r => basicTail (r.length + 1) r
  | '\'' :: r => literalTail r
  | _ => none

/-- A line end right behind the three opening quotes does not belong to the string. -/
def string (t : Text) : Option (Text × Text) :=
  match t with
  | '"' :: '"' :: '"' :: r => multilineTail '"' (r.length + 1) ((newline? r).getD r)
  | '\'' :: '\'' :: '\'' :: r => multilineTail '\'' (r.length + 1) ((newline? r).getD r)
  | _ => quoted t

/-! ## Numbers -/

/-- Digits, single underscores between them, as the digits alone. -/
def digitsOf (isDigit : Char → Bool) : Bool → Reader Text
  | _, [] => some ([], [])
  | afterDigit, c :: r =>
    if isDigit c then push c (digitsOf isDigit true r)
    else if c = '_' ∧ afterDigit then
      match r with
      | d :: _ => if isDigit d then digitsOf isDigit false r else some ([], c :: r)
      | [] => some ([], [c])
    else some ([], c :: r)

/-- At least one digit. -/
def digits (isDigit : Char → Bool) (t : Text) : Option (Text × Text) :=
  match digitsOf isDigit false t with
  | some ([], _) => none
  | r => r

def sign : Text → Bool × Text
  | '-' :: r => (true, r)
  | '+' :: r => (false, r)
  | t => (false, t)

/-- A number of several digits does not begin with a zero. -/
def wholePart : Reader Text
  | '0' :: r => some (['0'], r)
  | t => digits Char.isDigit t

def fraction : Reader Text
  | '.' :: r => digits Char.isDigit r
  | _ => none

def exponent : Reader Int
  | c :: r =>
    if c = 'e' ∨ c = 'E' then
      let (negative, r) := sign r
      (digits Char.isDigit r).map fun (ds, r) =>
        (if negative then -(number 10 ds : Int) else number 10 ds, r)
    else none
  | [] => none

/-- A number is refused where it is too great: an integer beyond 64 bits, a positive float beyond
the doubles. -/
def integerOf (negative : Bool) (n : Nat) : Option Value :=
  if negative then (if n ≤ Nat.pow 2 63 then some (.integer (-n)) else none)
  else if n < Nat.pow 2 63 then some (.integer n) else none

def floatOf (negative : Bool) (whole frac : Text) (e : Int) : Option Value :=
  match Binary64.ofDecimal negative (number 10 (whole ++ frac)) (e - frac.length) with
  | .infinite false => none
  | x => some (.float x)

def basedInteger (base : Nat) (isDigit : Char → Bool) (t : Text) : Option (Value × Text) := do
  let (ds, r) ← digits isDigit t
  let v ← integerOf false (number base ds)
  some (v, r)

/-- A whole number, or a float with a fraction, an exponent or both. -/
def decimalNumber (t : Text) : Option (Value × Text) := do
  let (negative, r) := sign t
  let (whole, r) ← wholePart r
  match fraction r with
  | some (frac, r) =>
    match exponent r with
    | some (e, r) => (floatOf negative whole frac e).map (·, r)
    | none => (floatOf negative whole frac 0).map (·, r)
  | none =>
    match exponent r with
    | some (e, r) => (floatOf negative whole [] e).map (·, r)
    | none => (integerOf negative (number 10 whole)).map (·, r)

def specialNumber (t : Text) : Option (Value × Text) :=
  let (negative, r) := sign t
  match after? "inf".toList r with
  | some r => some (.float (.infinite negative), r)
  | none => (after? "nan".toList r).map (.float .nan, ·)

def numberValue (t : Text) : Option (Value × Text) :=
  match t with
  | '0' :: 'x' :: r => basedInteger 16 isHexDigit r
  | '0' :: 'o' :: r => basedInteger 8 (fun c => '0' ≤ c && c ≤ '7') r
  | '0' :: 'b' :: r => basedInteger 2 (fun c => c == '0' || c == '1') r
  | _ =>
    match specialNumber t with
    | some r => some r
    | none => decimalNumber t

/-! ## Dates and times -/

/-- Exactly so many digits, as a number. -/
def fixedDigits (n : Nat) (t : Text) : Option (Nat × Text) :=
  if (t.take n).length = n ∧ (t.take n).all Char.isDigit then
    some (number 10 (t.take n), t.drop n)
  else none

/-- Two digits that write a number between bounds. -/
def twoDigits (low high : Nat) (t : Text) : Option (Nat × Text) := do
  let (n, r) ← fixedDigits 2 t
  if low ≤ n ∧ n ≤ high then some (n, r) else none

def daysIn (year month : Nat) : Nat :=
  if month = 2 then
    if year % 4 = 0 ∧ (year % 100 ≠ 0 ∨ year % 400 = 0) then 29 else 28
  else if month = 4 ∨ month = 6 ∨ month = 9 ∨ month = 11 then 30
  else 31

/-- The rest after a date. -/
def date? (t : Text) : Option Text := do
  let (year, r) ← fixedDigits 4 t
  let (month, r) ← twoDigits 1 12 (← after? ['-'] r)
  let (_, r) ← twoDigits 1 (daysIn year month) (← after? ['-'] r)
  some r

/-- The rest after a time of day; a leap second is allowed. -/
def time? (t : Text) : Option Text := do
  let (_, r) ← twoDigits 0 23 t
  let (_, r) ← twoDigits 0 59 (← after? [':'] r)
  let (_, r) ← twoDigits 0 60 (← after? [':'] r)
  match r with
  | '.' :: ds =>
    let r' := ds.dropWhile Char.isDigit
    some (if r'.length < ds.length then r' else r)
  | _ => some r

def offset? (t : Text) : Option Text :=
  match t with
  | 'Z' :: r => some r
  | 'z' :: r => some r
  | c :: r =>
    if c = '+' ∨ c = '-' then do
      let (_, r) ← twoDigits 0 23 r
      let (_, r) ← twoDigits 0 59 (← after? [':'] r)
      some r
    else none
  | [] => none

/-- The rest after a date, a time, or both with or without an offset. -/
def datetime? (t : Text) : Option Text :=
  match date? t with
  | none => time? t
  | some r =>
    match r with
    | c :: r' =>
      if c = 'T' ∨ c = 't' ∨ c = ' ' then
        match time? r' with
        | some r'' => some ((offset? r'').getD r'')
        | none => some r
      else some r
    | [] => some r

/-- A value without parts. -/
def scalar (t : Text) : Option (Value × Text) :=
  match t with
  | [] => none
  | c :: _ =>
    if c = '"' ∨ c = '\'' then (string t).map fun (s, r) => (.string s, r)
    else if c = 't' then (after? "true".toList t).map (.boolean true, ·)
    else if c = 'f' then (after? "false".toList t).map (.boolean false, ·)
    else
      match datetime? t with
      | some r => some (.datetime, r)
      | none => numberValue t

end PageSplice.Toml
