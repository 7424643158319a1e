import CommentMacro.Command.Reading
import CommentMacro.Command.Watch

/-!
# The command line program

Reads the arguments and the source, prints what a run prints, and writes what it
writes. What is printed and written is decided by `Command.run`.
-/

namespace CommentMacro.Command

def usage : String :=
  "usage: commentmacro [-h] [-c COMMENT] [-o OUTPUT | --stdout] [--scoping flat|nested] " ++
    "[--strict] [-v] [-w] [--interval SECONDS] source_path\n"

/-- When the file at a path was last changed, if there is one. -/
def stampOf (path : Text) : IO (Option Stamp) := do
  if path.isEmpty then return none
  let entry : IO.FS.DirEntry := ⟨".", String.ofList path⟩
  try
    let time := (← entry.path.metadata).modified
    return some (.given (time.sec * 1000000000 + time.nsec.toNat))
  catch _ => return none

/-- Expands the source once. Gives whether that succeeded, if the run did not
break off. -/
def expandOnce (options : Options) : IO (Option Bool) := do
  let document ← IO.FS.readFile (String.ofList options.source)
  match run options document.toList with
  | .error breakdown =>
    IO.eprint (String.ofList (line breakdown.message))
    return none
  | .ok report =>
    IO.print (String.ofList report.output)
    IO.eprint (String.ofList report.errors)
    match report.written with
    | some (path, content) => IO.FS.writeFile (String.ofList path) (String.ofList content)
    | none => pure ()
    (← IO.getStdout).flush
    return some report.succeeded

/-- Looks at the source again and again, until a run breaks off. -/
partial def keepLooking (options : Options) (pause : Nat) (last : Option Stamp) : IO Unit := do
  IO.sleep (UInt32.ofNat pause)
  let now ← stampOf options.source
  if Watch.isDue last now then
    IO.print (String.ofList (Watch.notice options.source))
    if (← expandOnce options).isNone then return
    keepLooking options pause (← stampOf options.source)
  else keepLooking options pause last

def carryOut (options : Options) : IO UInt32 := do
  if (← stampOf options.source).isNone then
    IO.eprint (String.ofList (missing options.source).errors)
    return 1
  let some succeeded ← expandOnce options | return 1
  if options.watch then
    IO.print (String.ofList (Watch.announcement options.source))
    (← IO.getStdout).flush
    match options.interval with
    | .filled interval => keepLooking options interval.thousandths (← stampOf options.source)
    | .blank => IO.eprintln "an interval is needed to watch a file"
    return 1
  return if succeeded then 0 else 1

end CommentMacro.Command

open CommentMacro.Command in
def main (arguments : List String) : IO UInt32 := do
  match Options.ofArguments (arguments.map String.toList) with
  | .ok options => carryOut options
  | .error .helpWanted =>
    IO.print usage
    return 0
  | .error .misused =>
    IO.eprint usage
    return 2
