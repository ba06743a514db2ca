import PageSplice.Decimal.Binary64
import PageSplice.Text

/-!
# TOML documents as values

A table keeps its keys in the order in which they first got their place, and remembers how it came
about, because that decides what a later header or dotted key may add to it.  `insert` puts the
value of a dotted key into a table.
-/

namespace PageSplice.Toml

/-- How a table came about. -/
inductive TableKind where
  /-- Written in braces. -/
  | inline
  /-- Opened by a header of its own. -/
  | headed
  /-- Only on the way to the table of a header. -/
  | implied
  /-- On the way to the value of a dotted key. -/
  | dotted
deriving DecidableEq, Repr

inductive Value where
  | string (text : Text)
  | integer (i : Int)
  | float (x : Binary64)
  | boolean (b : Bool)
  | datetime
  | array (items : List Value)
  /-- An array whose items are the tables of equal double-bracket headers. -/
  | tables (items : List Value)
  | table (kind : TableKind) (fields : List (Text × Value))

abbrev Fields := List (Text × Value)

namespace Fields

def get? (k : Text) (fs : Fields) : Option Value := fs.lookup k

/-- The fields with another value for a key they have. -/
def set (k : Text) (v : Value) (fs : Fields) : Fields :=
  fs.map fun f => if f.1 = k then (k, v) else f

def add (k : Text) (v : Value) (fs : Fields) : Fields := fs ++ [(k, v)]

def erase (k : Text) (fs : Fields) : Fields := fs.filter (·.1 ≠ k)

/-- Changes the table at the end of a key path; tables missing on the way are made.  `made` is the
kind they get: dotted keys may pass only through tables that no header or brace has closed.  The
change is told whether the table it gets comes from dotted keys. -/
def modifyAt {α : Type} (made : TableKind) (change : Bool → Fields → Option (Fields × α)) :
    List Text → Bool → Fields → Option (Fields × α)
  | [], isDotted, fs => change isDotted fs
  | k :: ks, _, fs =>
    match get? k fs with
    | none => do
      let (sub, a) ← modifyAt made change ks (made = .dotted) []
      some (add k (.table made sub) fs, a)
    | some (.table kind sub) =>
      if kind = .inline ∨ (made = .dotted ∧ kind = .headed) then none
      else do
        let (sub, a) ← modifyAt made change ks (kind = .dotted) sub
        some (set k (.table kind sub) fs, a)
    | some (.tables items) =>
      match items.getLast? with
      | some (.table kind sub) => do
        let (sub, a) ← modifyAt made change ks false sub
        some (set k (.tables (items.dropLast ++ [.table kind sub])) fs, a)
      | _ => none
    | some _ => none

/-- Gives a dotted key its value.  A key has one value, and a dotted key adds only to tables that
dotted keys made. -/
def insert (path : List Text) (key : Text) (v : Value) (fs : Fields) : Option Fields :=
  (modifyAt .dotted (fun isDotted fs =>
    if isDotted = path.isEmpty ∨ (get? key fs).isSome then none else some (add key v fs, ()))
    path false fs).map (·.1)

end Fields

/-! ## Tables with headers -/

/-- A document while it is read: the tables that are done, and the one whose keys are being read. -/
structure Draft where
  root : Fields := []
  /-- The header of the open table; the root has none. -/
  header : Option (List Text × Text) := none
  /-- Whether the header was in double brackets. -/
  repeated : Bool := false
  fields : Fields := []

namespace Draft

/-- Puts the open table into its place. -/
def close (d : Draft) : Option Fields :=
  match d.header with
  | none => some d.fields
  | some (path, key) =>
    (Fields.modifyAt .implied (fun _ fs =>
      if d.repeated then
        match Fields.get? key fs with
        | none => some (Fields.add key (.tables [.table .headed d.fields]) fs, ())
        | some (.tables items) =>
          some (Fields.set key (.tables (items ++ [.table .headed d.fields])) fs, ())
        | some _ => none
      else if (Fields.get? key fs).isSome then none
      else some (Fields.add key (.table .headed d.fields) fs, ())) path false d.root).map (·.1)

/-- Opens the table of a header.  A table that was only implied so far keeps what it has and stands
behind the tables that are done. -/
def openTable (path : List Text) (key : Text) (d : Draft) : Option Draft := do
  let root ← d.close
  let (root, fields) ← Fields.modifyAt .implied (fun _ fs =>
    match Fields.get? key fs with
    | none => some (fs, [])
    | some (.table .implied sub) => some (Fields.erase key fs, sub)
    | some _ => none) path false root
  some { root, header := some (path, key), fields }

/-- Opens one more table of an array of tables. -/
def openTables (path : List Text) (key : Text) (d : Draft) : Option Draft := do
  let root ← d.close
  let (root, _) ← Fields.modifyAt .implied (fun _ fs =>
    match Fields.get? key fs with
    | none => some (Fields.add key (.tables []) fs, ())
    | some (.tables _) => some (fs, ())
    | some _ => none) path false root
  some { root, header := some (path, key), repeated := true }

def insert (path : List Text) (key : Text) (v : Value) (d : Draft) : Option Draft := do
  let fields ← Fields.insert path key v d.fields
  some { d with fields }

end Draft

end PageSplice.Toml
