import PageSplice.Log
import PageSplice.Path

/-!
# Notices

What a run reports while it goes on, and the log line of each report.
-/

namespace PageSplice

/-- The two jobs that go through files one by one. -/
inductive Job where
  | rebuild
  | retemplate
deriving DecidableEq, Repr

inductive Notice where
  | sections (names : List Text)
  | upToDate (job : Job) (file : Path)
  | outOfDate (file : Path)
  | writing (job : Job) (file : Path)
  | failing (file : Path)
  | done (job : Job) (written upToDate : Nat)
  | initialized (config : Path)
deriving DecidableEq, Repr

def Job.topic : Job → Text
  | rebuild => "rebuild".toList
  | retemplate => "retemplate".toList

def Notice.line : Notice → LogLine
  | sections names =>
    ⟨Job.topic .retemplate, "sections: ".toList ++ ", ".toList.intercalate names⟩
  | upToDate job p => ⟨job.topic, "File ".toList ++ p ++ " up-to-date".toList⟩
  | outOfDate p => ⟨"check".toList, p ++ " is out of date".toList⟩
  | writing .rebuild p => ⟨Job.topic .rebuild, "Writing ".toList ++ p⟩
  | writing .retemplate p => ⟨Job.topic .retemplate, "Rewriting ".toList ++ p⟩
  | failing p => ⟨"error".toList, "Error in file ".toList ++ p⟩
  | done job written fresh =>
    let verb := match job with
      | .rebuild => "written"
      | .retemplate => "rewritten"
    ⟨job.topic, s!"done: {written} {verb}, {fresh} up-to-date".toList⟩
  | initialized p => ⟨"init".toList, "wrote ".toList ++ p⟩

end PageSplice
