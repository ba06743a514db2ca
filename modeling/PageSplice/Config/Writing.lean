import PageSplice.Config.Basic

/-!
# Writing a configuration

The text of a configuration file: a table for rebuilding, and one table for each section.
-/

namespace PageSplice.Config

/-- A character in a string of a configuration file. -/
def writtenChar (c : Char) : Text :=
  if c = '"' ∨ c = '\\' then ['\\', c]
  else if c = '\n' then ['\\', 'n']
  else if c = '\t' then ['\\', 't']
  else if c = '\r' then ['\\', 'r']
  else if c < ' ' ∨ c = '\x7f' then
    let ds := Nat.toDigits 16 c.toNat
    ['\\', 'u'] ++ List.replicate (4 - ds.length) '0' ++ ds
  else [c]

def writtenString (t : Text) : Text := ['"'] ++ t.flatMap writtenChar ++ ['"']

def writtenLine (key : String) (value : Text) : Text :=
  key.toList ++ " = ".toList ++ value ++ ['\n']

def writtenRebuild (r : RebuildSettings) : Text :=
  "[rebuild]\n".toList ++ writtenLine "template" (writtenString r.template) ++
    writtenLine "placeholder" (writtenString r.placeholder) ++
    writtenLine "source_dir" (writtenString r.sourceDir) ++
    writtenLine "output_dir" (writtenString r.outputDir) ++
    writtenLine "pages" (['['] ++ ", ".toList.intercalate (r.pages.map writtenString) ++ [']'])

def writtenSection (s : SectionEntry) : Text :=
  "\n[[retemplate.sections]]\n".toList ++ writtenLine "name" (writtenString s.name) ++
    writtenLine "fragment" (writtenString s.fragment)

/-- An empty list of sections is written out, because a missing one has a default. -/
def write (c : Config) : Text :=
  writtenRebuild c.rebuild ++
    (if c.retemplate.sections = [] then "\n[retemplate]\nsections = []\n".toList
      else c.retemplate.sections.flatMap writtenSection)

end PageSplice.Config
