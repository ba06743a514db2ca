import PageSplice.CommandLine.Basic

/-!
# Reading command lines

Each command has options, long or short, and may take operands.  The arguments are scanned from left
to right.  An option's value may stand in its own argument or behind it in the same one.  A value in
an argument of its own is looked at only when the next option, or the end, shows that it is
complete; until then a fault in a later argument wins.
-/

namespace PageSplice

inductive OptionName where
  | root
  | config
  | template
  | placeholder
  | sourceDir
  | outputDir
  | sections
  | check
  | help
  | version
deriving DecidableEq, Repr

/-- What an option takes. -/
inductive OptionKind where
  | flag
  | help
  | version
  | path
  | text
  | sectionText
deriving DecidableEq, Repr

structure OptionSpec where
  name : OptionName
  short : Option Char
  long : Text
  kind : OptionKind
deriving DecidableEq, Repr

inductive CommandName where
  | init
  | rebuild
  | retemplate
  | help
deriving DecidableEq, Repr

/-- What may stand on a part of the command line. -/
structure Usage where
  options : List OptionSpec
  takesOperands : Bool
  commands : List (Text × CommandName)

def helpOption : OptionSpec := ⟨.help, some 'h', "help".toList, .help⟩

def checkOption : OptionSpec := ⟨.check, none, "check".toList, .flag⟩

def Usage.main : Usage where
  options :=
    [⟨.root, some 'r', "root".toList, .path⟩, ⟨.config, some 'C', "config".toList, .path⟩,
     helpOption, ⟨.version, some 'V', "version".toList, .version⟩]
  takesOperands := false
  commands :=
    [("init".toList, .init), ("rebuild".toList, .rebuild), ("retemplate".toList, .retemplate),
     ("help".toList, .help)]

def Usage.init : Usage where
  options := [helpOption]
  takesOperands := false
  commands := []

def Usage.rebuild : Usage where
  options :=
    [⟨.template, some 't', "template".toList, .path⟩,
     ⟨.placeholder, some 'p', "placeholder".toList, .text⟩,
     ⟨.sourceDir, some 's', "source-dir".toList, .path⟩,
     ⟨.outputDir, some 'o', "output-dir".toList, .path⟩, checkOption, helpOption]
  takesOperands := true
  commands := []

def Usage.retemplate : Usage where
  options := [⟨.sections, some 's', "section".toList, .sectionText⟩, checkOption, helpOption]
  takesOperands := true
  commands := []

/-! ## State of a scan -/

/-- What has been read but not yet looked at. -/
inductive Pending where
  | nothing
  | option (spec : OptionSpec) (value : Option Text)
  | operands (values : List Text)

structure Scan where
  /-- The options given so far with their values, a flag's being empty. -/
  given : List (OptionName × Text) := []
  operands : List Text := []
  pending : Pending := .nothing

namespace Scan

def isGiven (s : Scan) (n : OptionName) : Bool := s.given.any (·.1 = n)

/-- The scan after an option with its value.  Only sections may be given more than once, and only
text may be empty. -/
def accept (s : Scan) (spec : OptionSpec) (value : Text) : Except Refusal Scan :=
  match spec.kind with
  | .help => .error .helpAsked
  | .version => .error .versionAsked
  | .sectionText =>
    if (SectionEntry.ofText? value).isNone then .error (.badSection value)
    else .ok { s with given := s.given ++ [(spec.name, value)] }
  | kind =>
    if s.isGiven spec.name then .error .repeatedOption
    else if kind = .path ∧ value = [] then .error .missingValue
    else .ok { s with given := s.given ++ [(spec.name, value)] }

/-- Looks at what is pending. -/
def settle (s : Scan) : Except Refusal Scan :=
  match s.pending with
  | .nothing => .ok s
  | .option _ none => .error .missingValue
  | .option spec (some v) => { s with pending := .nothing }.accept spec v
  | .operands vs =>
    if vs.any List.isEmpty then .error .missingValue
    else .ok { s with operands := s.operands ++ vs, pending := .nothing }

/-- Whether the next word is the value of an option. -/
def awaitsValue (s : Scan) : Bool :=
  match s.pending with
  | .option _ none => true
  | _ => false

/-- The scan after an option's name and what is attached to it. -/
def option (s : Scan) (spec : OptionSpec) (attached : Option Text) : Except Refusal Scan := do
  let s ← s.settle
  match spec.kind, attached with
  | .flag, _ | .help, _ | .version, _ => s.accept spec []
  | _, some v => s.accept spec v
  | _, none => .ok { s with pending := .option spec none }

def takesValue (spec : OptionSpec) : Bool :=
  match spec.kind with
  | .flag | .help | .version => false
  | _ => true

/-- An argument that begins with two dashes. -/
def longOption (u : Usage) (s : Scan) (body : Text) : Except Refusal Scan :=
  let name := body.takeWhile (· ≠ '=')
  let attached := match body.dropWhile (· ≠ '=') with
    | _ :: v => some v
    | [] => none
  match u.options.find? (·.long = name) with
  | none => .error .unknownArgument
  | some spec =>
    if ¬ takesValue spec ∧ attached.isSome then .error .unwantedValue else s.option spec attached

/-- An argument that begins with one dash: letters of options.  The first that takes a value takes
what follows it. -/
def shortOptions (u : Usage) (s : Scan) : Text → Except Refusal Scan
  | [] => .ok s
  | c :: rest =>
    match u.options.find? (·.short = some c) with
    | none => .error .unknownArgument
    | some spec =>
      if takesValue spec then
        s.option spec (match rest with
          | [] => none
          | '=' :: v => some v
          | v => some v)
      else do shortOptions u (← s.option spec none) rest

/-- A word that is neither a command nor a value. -/
def operand (u : Usage) (s : Scan) (afterDashes : Bool) (word : Text) : Except Refusal Scan :=
  if u.takesOperands then
    match s.pending with
    | .operands vs => .ok { s with pending := .operands (vs ++ [word]) }
    | _ => do
      let s ← s.settle
      .ok { s with pending := .operands [word] }
  else if u.commands.isEmpty ∨ (afterDashes ∧ (u.commands.lookup word).isSome) then
    .error .unknownArgument
  else .error .unknownCommand

/-- One argument, before a pair of dashes that ends the options. -/
def argument (u : Usage) (s : Scan) (arg : Text) : Except Refusal Scan :=
  match arg with
  | '-' :: '-' :: body => s.longOption u body
  | '-' :: c :: rest => s.shortOptions u (c :: rest)
  | word =>
    match s.pending with
    | .option spec none => .ok { s with pending := .option spec (some word) }
    | _ => s.operand u false word

/-- Scans arguments up to a command, which is given with the arguments behind it. -/
def run (u : Usage) (s : Scan) (afterDashes : Bool) :
    List Text → Except Refusal (Scan × Option (CommandName × List Text))
  | [] => .ok (s, none)
  | arg :: rest =>
    if afterDashes then do run u (← s.operand u true arg) true rest
    else if ¬ s.awaitsValue ∧ (u.commands.lookup arg).isSome then
      .ok (s, (u.commands.lookup arg).map (·, rest))
    else if arg = ['-', '-'] then run u s true rest
    else do run u (← s.argument u arg) false rest

def value? (s : Scan) (n : OptionName) : Option Text := s.given.lookup n

end Scan

/-! ## Commands -/

/-- Help on the whole or on one command. -/
def helpRefusal : List Text → Refusal
  | [] => .helpAsked
  | [word] => if (Usage.main.commands.lookup word).isSome then .helpAsked else .unknownCommand
  | _ => .unknownCommand

/-- All options and operands of a command that has no commands of its own. -/
def scanAll (u : Usage) (args : List Text) : Except Refusal Scan := do
  let (s, _) ← Scan.run u {} false args
  s.settle

def Command.scan (args : List Text) : CommandName → Except Refusal Command
  | .help => .error (helpRefusal args)
  | .init => (scanAll .init args).map fun _ => .init
  | .rebuild => (scanAll .rebuild args).map fun s => .rebuild
      { pages := s.operands
        template := s.value? .template
        placeholder := s.value? .placeholder
        sourceDir := s.value? .sourceDir
        outputDir := s.value? .outputDir
        check := s.isGiven .check }
  | .retemplate => (scanAll .retemplate args).map fun s => .retemplate
      { targets := s.operands
        sections := s.given.filterMap fun (n, v) =>
          if n = .sections then SectionEntry.ofText? v else none
        check := s.isGiven .check }

/-- A fault behind the command wins over one in a value before it that is still pending. -/
def CommandLine.parse (args : List Text) : Except Refusal CommandLine := do
  match ← Scan.run .main {} false args with
  | (s, none) =>
    let s ← s.settle
    .error (if s.given = [] then .nothingAsked else .missingCommand)
  | (s, some (name, rest)) =>
    let command ← Command.scan rest name
    let s ← s.settle
    .ok { root := s.value? .root
          config := (s.value? .config).getD "splice.toml".toList
          command }

end PageSplice
