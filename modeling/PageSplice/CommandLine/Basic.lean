import PageSplice.Config.Basic

/-!
# Command lines

What a command line asks for, and why one is refused.
-/

namespace PageSplice

structure RebuildRequest where
  pages : List Path := []
  template : Option Path := none
  placeholder : Option Text := none
  sourceDir : Option Path := none
  outputDir : Option Path := none
  check : Bool := false
deriving DecidableEq, Repr

structure RetemplateRequest where
  targets : List Path := []
  sections : List SectionEntry := []
  check : Bool := false
deriving DecidableEq, Repr

inductive Command where
  | init
  | rebuild (request : RebuildRequest)
  | retemplate (request : RetemplateRequest)
deriving DecidableEq, Repr

structure CommandLine where
  root : Option Path := none
  config : Path := "splice.toml".toList
  command : Command
deriving DecidableEq, Repr

def CommandLine.startsProject (c : CommandLine) : Bool := c.command = .init

/-- Why a command line is not carried out. -/
inductive Refusal where
  | nothingAsked
  | missingCommand
  | unknownCommand
  | unknownArgument
  | repeatedOption
  | missingValue
  | unwantedValue
  | badSection (text : Text)
  | helpAsked
  | versionAsked
deriving DecidableEq, Repr

/-- The text before the first `=` and the text behind it; neither may be empty. -/
def SectionEntry.ofText? (t : Text) : Option SectionEntry :=
  match t.dropWhile (· ≠ '=') with
  | _ :: fragment =>
    let name := t.takeWhile (· ≠ '=')
    if name = [] ∨ fragment = [] then none else some { name, fragment }
  | [] => none

/-- How a section should have been written. -/
def badSectionMessage (t : Text) : String := s!"expected NAME=FRAGMENT, got `{String.ofList t}`"

/-- The directory against which the paths of a configuration are anchored. -/
def CommandLine.rootPath (c : CommandLine) : Path := c.root.getD "./".toList

namespace Config

/-- The configuration with what a command line puts in the place of its fields.  A list takes the
place of the configured one unless it is empty. -/
def override (c : Config) : Command → Config
  | .init => c
  | .rebuild r =>
    { c with rebuild :=
      { template := r.template.getD c.rebuild.template
        placeholder := r.placeholder.getD c.rebuild.placeholder
        sourceDir := r.sourceDir.getD c.rebuild.sourceDir
        outputDir := r.outputDir.getD c.rebuild.outputDir
        pages := if r.pages = [] then c.rebuild.pages else r.pages } }
  | .retemplate r =>
    if r.sections = [] then c else { c with retemplate := { sections := r.sections } }

/-- The configuration under a command line, which also tells where the configuration file is. -/
def update (t : Tree) (line : CommandLine) (c : Config) : Config :=
  { c.override line.command with
    configPath := t.realOrAbsolute (Path.join line.rootPath line.config) }

end Config

end PageSplice
