import PageSplice.Config.Reading
import PageSplice.Files

/-!
# Failures

Why a run stopped, as a chain of messages from the outside in.
-/

namespace PageSplice

/-- What was being done when an error arose. -/
inductive Activity where
  | extracting (source : Path)
  | filling (template : Path)
  | loading (name : Text)
  | retemplating (file : Path)
  | creating (dir : Path)
  | saving (file : Path)
deriving DecidableEq, Repr

def Activity.message : Activity → String
  | extracting p => s!"Failed to extract body from {String.ofList p}"
  | filling p => s!"Failed to fill template {String.ofList p}"
  | loading n => s!"Failed to load fragment for section `{String.ofList n}`"
  | retemplating p => s!"Failed to retemplate {String.ofList p}"
  | creating p => s!"Failed to create {String.ofList p}"
  | saving p => s!"Failed to write {String.ofList p}"

/-- What went wrong at the innermost. -/
inductive Cause where
  | page (e : PageFault)
  | file (e : FileFault)
  | config (e : ConfigFault)
  | tree (e : FileError)
  | configExists (p : Path)
  | outOfDate (count : Nat)
deriving DecidableEq, Repr

def Cause.chain : Cause → List String
  | page e => [e.message]
  | file e => e.message :: e.causes
  | config e => e.message :: e.causes
  | tree e => [e.message]
  | configExists p =>
    [s!"Config file `{String.ofList p}` already exists. " ++
      "Remove it manually or init in a different path."]
  | outOfDate n => [s!"{n} file(s) out of date"]

structure Failure where
  during : Option Activity := none
  cause : Cause
deriving DecidableEq, Repr

def Failure.chain (f : Failure) : List String :=
  (f.during.map Activity.message).toList ++ f.cause.chain

/-! ## How a failure is printed -/

/-- A message with its further lines moved in. -/
def indented (width : Nat) (message : String) : Text :=
  message.toList.flatMap fun c => if c = '\n' then c :: List.replicate width ' ' else [c]

/-- Causes with their numbers, right-aligned in five columns. -/
def numberedCauses : Nat → List String → Text
  | _, [] => []
  | i, c :: cs =>
    let number := Nat.toDigits 10 i
    List.replicate (5 - number.length) ' ' ++ number ++ ": ".toList ++ indented 7 c ++ ['\n'] ++
      numberedCauses (i + 1) cs

def causesText : List String → Text
  | [] => []
  | [c] => "\nCaused by:\n    ".toList ++ indented 4 c ++ ['\n']
  | cs => "\nCaused by:\n".toList ++ numberedCauses 0 cs

def Failure.text (f : Failure) : Text :=
  match f.chain with
  | [] => []
  | message :: causes => "Error: ".toList ++ message.toList ++ ['\n'] ++ causesText causes

end PageSplice
