import ServletContainer.Cli.Run

/-! The command line program: reads the configuration file and the resources that it refers to, runs
the command, and prints the outcome. -/
namespace ServletContainer.Cli

def usage : String :=
  "Usage: webboard -c FILE check\n       webboard -c FILE route [PATH]...\n" ++
    "       webboard -c FILE request [-X METHOD] URI\n"

def readFile (path : String) : IO (Option Bytes) := do
  try return some (← IO.FS.readBinFile path).toList
  catch _ => return none

def addFiles (fs : Files) (directory : String) : IO Files := do
  let directory := (← IO.currentDir) / directory
  if ← directory.isDir then
    let mut fs := fs
    for path in ← directory.walkDir do
      if !(← path.isDir) then
        if let some content ← readFile path.toString then
          fs := fs.write path.toString content
    return fs
  else return fs

def readResources (c : Config) : IO Files :=
  (c.contexts.filterMap (·.base)).foldlM addFiles ⟨"", ∅⟩

def execute (i : Invocation) : IO UInt32 := do
  let here := (← IO.currentDir).toString
  let config := (readConfig (← readFile i.config)).map (Config.within here)
  let fs ← match config with
    | .ok c => readResources c
    | .error _ => pure ⟨"", ∅⟩
  let r := run i.command config fs
  IO.print r.out
  match r.failure with
  | none => return 0
  | some f =>
    IO.eprint f.report
    return 1

end ServletContainer.Cli

open ServletContainer.Cli in
def main (args : List String) : IO UInt32 := do
  match Invocation.ofArguments? args with
  | some i => execute i
  | none =>
    IO.eprint usage
    return 2
