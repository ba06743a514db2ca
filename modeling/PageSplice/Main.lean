import PageSplice.Run.Program

/-!
# The command

Reads in the files that a run may touch, carries the run out on that tree, and writes back what
changed.  A link counts as leading where it leads in the end, and a broken one as nothing: what is
written under its name then goes where it points.
-/

namespace PageSplice.Disk

def nameOf (l : Location) : String := String.ofList (Location.path l)

/-- Adds what stands in a directory under a name, and all that is below it. -/
partial def addAll (t : Tree) (d : Location) (n : Text) : IO Tree := do
  let e : IO.FS.DirEntry := ⟨nameOf d, String.ofList n⟩
  match ← e.path.symlinkMetadata.toBaseIO with
  | .error _ => return t
  | .ok found =>
    match found.type with
    | .dir =>
      let inside ← e.path.readDir
      inside.foldlM (fun t x => addAll t (d ++ [n]) x.fileName.toList) (t.put d n .dir)
    | .file => return t.put d n (.file (← IO.FS.readBinFile e.path))
    | .symlink => return t.put d n (.link (← IO.FS.realPath e.path).toString.toList)
    | .other => return t

/-- Adds what stands on the way along some steps, and where they lead all that is there. -/
partial def addAlong (t : Tree) (d : Location) : List Text → IO Tree
  | [] => if d = [] then return t else addAll t d.dropLast (d.getLastD [])
  | n :: rest => do
    if n = [] ∨ n = ['.'] then addAlong t d rest
    else if n = ['.', '.'] then addAlong t d.dropLast rest
    else
      let e : IO.FS.DirEntry := ⟨nameOf d, String.ofList n⟩
      if ¬ (← e.path.pathExists) then return t
      match (← e.path.symlinkMetadata).type with
      | .dir => addAlong (t.put d n .dir) (d ++ [n]) rest
      | .file => return t.put d n (.file (← IO.FS.readBinFile e.path))
      | .symlink =>
        let target := (← IO.FS.realPath e.path).toString.toList
        addAlong (t.put d n (.link target)) [] (Path.segments target ++ rest)
      | .other => return t

def addPath (t : Tree) (p : Path) : IO Tree :=
  addAlong t [] (Path.segments (Path.join (Location.path t.here) p))

/-- An empty tree but for the working directory. -/
def start : IO Tree := do
  let here := (Path.segments (← IO.currentDir).toString.toList).filter (· ≠ [])
  return (Tree.empty.putDirs [] here).enter here

/-- The tree with all that a command line can make use of. -/
def gather (home : Path) (args : List Text) : IO Tree := do
  let t ← start
  match CommandLine.parse args with
  | .error _ => return t
  | .ok line =>
    let t ← addPath t (Path.join line.rootPath line.config)
    match configFor home line t with
    | .error _ => return t
    | .ok c => (c.reach line.command).foldlM addPath t

def writeBack (changed : List (Location × Entry)) : IO Unit :=
  changed.forM fun (l, e) =>
    match e with
    | .dir => IO.FS.createDir (nameOf l)
    | .file b => IO.FS.writeBinFile (nameOf l) b
    | .link _ => pure ()

def carryOutAll (args : List Text) : IO UInt32 := do
  let home := ((← IO.getEnv "HOME").getD "~").toList
  let coloured := wantsColour (← IO.getEnv "CLICOLOR_FORCE") (← IO.getEnv "NO_COLOR")
    (← IO.getEnv "CLICOLOR") (← (← IO.getStdout).isTty)
  let before ← gather home args
  let finish := run home coloured args before
  writeBack (finish.changed before)
  (← IO.getStdout).putStr (String.ofList finish.output)
  (← IO.getStderr).putStr (String.ofList finish.errors)
  return finish.code.toUInt32

end PageSplice.Disk

def main (args : List String) : IO UInt32 := PageSplice.Disk.carryOutAll (args.map String.toList)
