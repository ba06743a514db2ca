import PageSplice.Config.Basic
import PageSplice.Decimal.Shortest
import PageSplice.Text.Quoted
import PageSplice.Toml.Document

/-!
# Reading a configuration

A configuration is a TOML document whose tables have known fields.  The fields of a table are read
in the order in which they stand and the first fault is reported; a field that is missing has its
default, unless it has none.  A table may also be written as an array: its items are then the fields
in their order, and items beyond the last field are ignored.
-/

namespace PageSplice

open Toml (Value)

/-- What kind of value a field wants. -/
inductive Wanted where
  | text
  | path
  | sequence
  | rebuildTable
  | retemplateTable
  | sectionTable
deriving DecidableEq, Repr

def Wanted.message : Wanted → String
  | text => "a string"
  | path => "path string"
  | sequence => "a sequence"
  | rebuildTable => "struct RebuildConfig"
  | retemplateTable => "struct RetemplateConfig"
  | sectionTable => "struct SectionConfig"

/-- Why a document is no configuration. -/
inductive ReadingFault where
  | unknownField (name : Text) (known : List Text)
  | missingField (name : Text)
  | wrongType (got : Text) (wanted : Wanted)
  | tooFewItems (count : Nat) (wanted : Wanted) (needed : Nat)
deriving DecidableEq, Repr

/-- The known names of fields, as a message lists them. -/
def listNames (names : List Text) : String :=
  match names.map fun n => s!"`{String.ofList n}`" with
  | [a, b] => s!"{a} or {b}"
  | [a] => a
  | ns => "one of " ++ String.intercalate ", " ns

def ReadingFault.message : ReadingFault → String
  | unknownField n known => s!"unknown field `{String.ofList n}`, expected {listNames known}"
  | missingField n => s!"missing field `{String.ofList n}`"
  | wrongType got wanted => s!"invalid type: {String.ofList got}, expected {wanted.message}"
  | tooFewItems count wanted needed =>
    s!"invalid length {count}, expected {wanted.message} with {needed} elements"

/-- A value as a message tells what was found instead of the wanted one. -/
def describe : Value → Text
  | .string t => "string ".toList ++ Text.quoted t
  | .integer i => "integer `".toList ++ (toString i).toList ++ ['`']
  | .float x => "floating point `".toList ++ x.text ++ ['`']
  | .boolean b => "boolean `".toList ++ (toString b).toList ++ ['`']
  | .array _ => "sequence".toList
  | .tables _ => "sequence".toList
  | .datetime => "map".toList
  | .table .. => "map".toList

/-- A way to read values of a type, which may fail. -/
abbrev Reading (α : Type) := Value → Except ReadingFault α

def wrongType {α : Type} (wanted : Wanted) : Reading α := fun v =>
  .error (.wrongType (describe v) wanted)

def readString (wanted : Wanted) : Reading Text
  | .string t => .ok t
  | v => wrongType wanted v

def readList {α : Type} (item : Reading α) : Reading (List α)
  | .array vs => vs.mapM item
  | .tables vs => vs.mapM item
  | v => wrongType .sequence v

/-- A field of a table that is read into a record: its name, and what its value does to the
record. -/
structure Field (σ : Type) where
  name : Text
  read : Value → σ → Except ReadingFault σ

namespace Field

variable {σ : Type}

/-- A field that takes a value read in some way. -/
def of {α : Type} (name : String) (read : Reading α) (put : α → σ → σ) : Field σ :=
  ⟨name.toList, fun v s => (read v).map (put · s)⟩

def readNamed (fields : List (Field σ)) : Toml.Fields → σ → Except ReadingFault σ
  | [], s => .ok s
  | (k, v) :: rest, s =>
    match fields.find? (·.name = k) with
    | none => .error (.unknownField k (fields.map (·.name)))
    | some f => (f.read v s).bind (readNamed fields rest)

def readInOrder : List (Field σ) → List Value → σ → Except ReadingFault σ
  | f :: fs, v :: vs, s => (f.read v s).bind (readInOrder fs vs)
  | _, _, s => .ok s

/-- The one key of a date or time, where a table is wanted. -/
def datetimeKey : Text := "$__toml_private_datetime".toList

/-- Reads a table, or an array in its place, into a record. -/
def readTable (fields : List (Field σ)) (wanted : Wanted) (s : σ) : Reading σ
  | .table _ fs => readNamed fields fs s
  | .datetime => .error (.unknownField datetimeKey (fields.map (·.name)))
  | .array vs => readInOrder fields vs s
  | .tables vs => readInOrder fields vs s
  | v => wrongType wanted v

end Field

/-! ## The fields of a configuration -/

/-- The two fields of a section, as far as they have been read. -/
structure SectionFields where
  name : Option Text := none
  fragment : Option Path := none

def sectionFields : List (Field SectionFields) :=
  [.of "name" (readString .text) fun t s => { s with name := some t },
   .of "fragment" (readString .path) fun p s => { s with fragment := some p }]

def itemCount : Value → Option Nat
  | .array vs => some vs.length
  | .tables vs => some vs.length
  | _ => none

/-- A section needs both its fields. -/
def readSection : Reading SectionEntry := fun v => do
  let s ← Field.readTable sectionFields .sectionTable {} v
  match s.name, s.fragment with
  | some name, some fragment => .ok { name, fragment }
  | name, _ =>
    match itemCount v with
    | some n => .error (.tooFewItems n .sectionTable 2)
    | none => .error (.missingField (if name.isNone then "name" else "fragment").toList)

def rebuildFields : List (Field RebuildSettings) :=
  [.of "template" (readString .path) fun p c => { c with template := p },
   .of "placeholder" (readString .text) fun t c => { c with placeholder := t },
   .of "source_dir" (readString .path) fun p c => { c with sourceDir := p },
   .of "output_dir" (readString .path) fun p c => { c with outputDir := p },
   .of "pages" (readList (readString .path)) fun ps c => { c with pages := ps }]

def retemplateFields : List (Field RetemplateSettings) :=
  [.of "sections" (readList readSection) fun ss c => { c with sections := ss }]

def configFields : List (Field Config) :=
  [.of "rebuild" (Field.readTable rebuildFields .rebuildTable {})
      fun r c => { c with rebuild := r },
   .of "retemplate" (Field.readTable retemplateFields .retemplateTable {}) fun r c =>
     { c with retemplate := r }]

/-! ## Configuration files -/

inductive ConfigFault where
  | unreadable (p : Path) (cause : FileError)
  /-- No TOML document. -/
  | syntaxFault
  | readingFault (fault : ReadingFault)
  | invalid (problem : ConfigProblem)
deriving DecidableEq, Repr

def ConfigFault.message : ConfigFault → String
  | unreadable p _ => s!"cannot read config file `{String.ofList p}`"
  | syntaxFault => "malformed config file"
  | readingFault _ => "malformed config file"
  | invalid problem => s!"invalid config: {problem.message}"

def ConfigFault.causes : ConfigFault → List String
  | unreadable _ e => [e.message]
  | _ => []

namespace Config

def parse (text : Text) : Except ConfigFault Config :=
  match Toml.document? text with
  | none => .error .syntaxFault
  | some fields => (Field.readNamed configFields fields {}).mapError .readingFault

def load (t : Tree) (p : Path) : Except ConfigFault Config :=
  match t.read p with
  | .error e => .error (.unreadable p e)
  | .ok b =>
    match Text.decode? b with
    | none => .error (.unreadable p .notText)
    | some text => parse text

end Config

end PageSplice
