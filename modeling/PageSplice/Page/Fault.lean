import PageSplice.Text

/-!
# Why a page cannot be spliced
-/

namespace PageSplice

inductive PageFault where
  | noDelimiter (delimiter : Text)
  | endBeforeStart (name : Text)
  | noPlaceholder (placeholder : Text)
  | improperName (name : Text)
deriving DecidableEq, Repr

def PageFault.message : PageFault → String
  | noDelimiter d => s!"delimiter `{String.ofList d}` not found"
  | endBeforeStart n =>
    s!"section `{String.ofList n}`: end marker comes before the start marker"
  | noPlaceholder p => s!"placeholder `{String.ofList p}` not found in template"
  | improperName n => s!"invalid section name `{String.ofList n}`"

end PageSplice
