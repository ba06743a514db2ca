import PageSplice.Toml.Scalar

/-!
# TOML documents

A document is a sequence of lines: headers, and keys with their values.  `document?` gives the
fields of the root table, or nothing if the text is no document: a line that is none, a key or table
given twice, or too deep a nesting.
-/

namespace PageSplice.Toml

open Text

/-- So many arrays and braces may not stand one in the other, nor so many keys in a dotted key. -/
def nestingLimit : Nat := 80

/-- The text behind a comment; the line end stays. -/
def skipComment (t : Text) : Text :=
  match t with
  | '#' :: r => r.dropWhile isPlain
  | _ => t

/-- The rest after the end of a line: blanks, a comment, and a line feed or the end of the text. -/
def lineEnd? (t : Text) : Option Text :=
  match skipComment (skipSpaces t) with
  | [] => some []
  | r => newline? r

/-! ## Keys -/

def simpleKey (t : Text) : Option (Text × Text) :=
  match t with
  | '"' :: _ => quoted t
  | '\'' :: _ => quoted t
  | _ =>
    match t.takeWhile isBareKeyChar with
    | [] => none
    | k => some (k, t.dropWhile isBareKeyChar)

def keysFrom : Nat → Reader (List Text)
  | 0, _ => none
  | fuel + 1, t => do
    let (k, r) ← simpleKey (skipSpaces t)
    match skipSpaces r with
    | '.' :: r => (keysFrom fuel r).map fun (ks, r) => (k :: ks, r)
    | r => some ([k], r)

/-- A dotted key as the keys on the way and the last one. -/
def dottedKey (t : Text) : Option ((List Text × Text) × Text) := do
  let (ks, r) ← keysFrom (nestingLimit - 1) t
  let last ← ks.getLast?
  some ((ks.dropLast, last), r)

/-! ## Values -/

/-- What may stand between the items of an array. -/
def skipFiller : Nat → Text → Text
  | 0, t => t
  | fuel + 1, t =>
    match skipSpaces t with
    | '#' :: r => skipFiller fuel (r.dropWhile isPlain)
    | r =>
      match newline? r with
      | some r => skipFiller fuel r
      | none => r

/-- The rest of an array.  A comma may stand behind the last item. -/
def arrayTail (item : Reader Value) : Nat → Reader (List Value)
  | 0, _ => none
  | fuel + 1, t =>
    match skipFiller t.length t with
    | ']' :: r => some ([], r)
    | t => do
      let (v, r) ← item t
      match skipFiller r.length r with
      | ',' :: r => (arrayTail item fuel r).map fun (vs, r) => (v :: vs, r)
      | ']' :: r => some ([v], r)
      | _ => none

/-- The fields of a table in braces, from the first key on.  They stand on one line, and no comma
stands behind the last. -/
def inlineFields (item : Reader Value) : Nat → Fields → Reader Fields
  | 0, _, _ => none
  | fuel + 1, fs, t => do
    let ((path, key), r) ← dottedKey t
    let r ← after? ['='] r
    let (v, r) ← item (skipSpaces r)
    let fs ← Fields.insert path key v fs
    match skipSpaces r with
    | ',' :: r => inlineFields item fuel fs r
    | '}' :: r => some (fs, r)
    | _ => none

/-- A value in which arrays and braces may stand one in the other so many times. -/
def value : Nat → Reader Value
  | depth, '[' :: r =>
    match depth with
    | 0 => none
    | depth + 1 => (arrayTail (value depth) (r.length + 1) r).map fun (vs, r) => (.array vs, r)
  | depth, '{' :: r =>
    match depth with
    | 0 => none
    | depth + 1 =>
      match skipSpaces r with
      | '}' :: r => some (.table .inline [], r)
      | _ =>
        (inlineFields (value depth) (r.length + 1) [] r).map fun (fs, r) => (.table .inline fs, r)
  | _, t => scalar t

/-! ## Lines -/

/-- A header line, behind its first bracket. -/
def header (d : Draft) (t : Text) : Option (Draft × Text) :=
  match t with
  | '[' :: r => do
    let ((path, key), r) ← dottedKey r
    let r ← lineEnd? (← after? "]]".toList r)
    some (← d.openTables path key, r)
  | _ => do
    let ((path, key), r) ← dottedKey t
    let r ← lineEnd? (← after? [']'] r)
    some (← d.openTable path key, r)

def keyLine (d : Draft) (t : Text) : Option (Draft × Text) := do
  let ((path, key), r) ← dottedKey t
  let r ← after? ['='] r
  let (v, r) ← value (nestingLimit - 1) (skipSpaces r)
  let r ← lineEnd? r
  some (← d.insert path key v, r)

def lines : Nat → Draft → Text → Option Draft
  | 0, _, _ => none
  | fuel + 1, d, t =>
    match skipSpaces t with
    | [] => some d
    | '[' :: r => do
      let (d, r) ← header d r
      lines fuel d r
    | t =>
      if t.head? = some '#' ∨ (newline? t).isSome then do lines fuel d (← lineEnd? t)
      else do
        let (d, r) ← keyLine d t
        lines fuel d r

/-- The root table of a document.  A byte order mark may stand at its beginning. -/
def document? (t : Text) : Option Fields := do
  let t := (after? ['\uFEFF'] t).getD t
  let d ← lines (t.length + 1) {} t
  d.close

end PageSplice.Toml
