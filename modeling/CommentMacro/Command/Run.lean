import CommentMacro.Command.FileStore
import CommentMacro.Command.Options
import CommentMacro.Diagnostic.Excerpt
import CommentMacro.Expansion

/-!
# A run

A run expands one file. It prints, and it may write one file: the output, or the
source itself if no output is given. A source that is its own target is only
written if the result differs from it, and nothing is written of a document that
holds nothing to expand.

What is wrong with the document is reported. An option that is needed but blank
breaks the run off instead; nothing has been printed or written then.
-/

namespace CommentMacro.Command

/-- What expanding a file comes to: whether it held anything to expand, what is
to be written where, and what the listener has heard. -/
structure FileExpansion (σ : Type) where
  expanded : Bool
  written : Option (Text × Text)
  heard : σ

/-- The file for the result: the output if one is named, else the source. -/
def target (source : Text) (output : Option Text) : Text :=
  match output with
  | some (c :: name) => c :: name
  | _ => source

def expandFile {σ : Type} (settings : Settings) (listener : Listener σ) (heard : σ)
    (source : Text) (output : Option Text) (document : Text) : Except Fault (FileExpansion σ) :=
  if hasDeclarations document then
    match expand settings listener heard document with
    | .error fault => .error fault
    | .ok (result, heard) =>
      let file := target source output
      .ok ⟨true, if file ≠ source ∨ result ≠ document then some (file, result) else none, heard⟩
  else .ok ⟨false, none, heard⟩

def FileExpansion.store {σ : Type} (expansion : FileExpansion σ) (store : FileStore) : FileStore :=
  match expansion.written with
  | some (path, content) => store.write path content
  | none => store

/-- What a run prints, what it writes where, and whether it succeeded. -/
structure Report where
  output : Text
  errors : Text
  written : Option (Text × Text)
  succeeded : Bool
  deriving DecidableEq, Repr, Inhabited

inductive Breakdown where
  /-- There is something to expand, but the comment sign is blank. -/
  | blankSign
  /-- The scoping has an unknown name. -/
  | unknownScoping (name : Text)
  deriving DecidableEq, Repr, Inhabited

def Breakdown.message : Breakdown → Text
  | blankSign => "decoding to str: need a bytes-like object, list found".toList
  | unknownScoping name => name

/-- The settings that the options ask for. The sign does not matter to a document
that holds nothing to expand. -/
def Options.settings (options : Options) (document : Text) : Except Breakdown Settings :=
  let scoping := options.scoping.display Scoping.name
  match options.sign with
  | .filled sign => .ok ⟨sign, scoping⟩
  | .blank => if hasDeclarations document then .error .blankSign else .ok ⟨[], scoping⟩

def Options.outputFile (options : Options) : Option Text :=
  match options.output with
  | some (.filled file) => some file
  | _ => none

def line (t : Text) : Text :=
  t ++ ['\n']

/-- What is said of a marker out of order: where it stands in the document. -/
def explainMarker (source document : Text) (fault : Document.MarkerFault) : Text :=
  let map := LineMap.ofText .normal document 1
  match map.complaint (some source) fault.start fault.stop fault.message with
  | .ok complaint => line complaint
  | .error missing => line missing.message

/-- What is said of an anomaly that ended the run. -/
def explainAnomaly (anomaly : Anomaly) : Text :=
  line (anomaly.errorName ++ ": ".toList ++
    Text.join ", ".toList (anomaly.arguments.map Text.quoted))

def Report.failed (complaint : Text) : Report :=
  ⟨[], complaint, none, false⟩

def Report.ofFault (source document : Text) : Fault → Except Breakdown Report
  | .marker fault => .ok (.failed (explainMarker source document fault))
  | .unknownScoping name => .error (.unknownScoping name)
  | .anomaly anomaly => .ok (.failed (explainAnomaly anomaly))

/-- What is said of a file that was expanded, or that held nothing to expand. -/
def summary (options : Options) (expanded : Bool) : Text :=
  if expanded then
    line ("Compiled output injected into ".toList ++ target options.source options.outputFile)
  else line ("No metacode block found in ".toList ++ options.source)

/-- A run with a given listener, of which `warnings` tells what it has said. -/
def runWith {σ : Type} (options : Options) (listener : Listener σ) (heard : σ)
    (warnings : σ → Text) (document : Text) : Except Breakdown Report := do
  let settings ← options.settings document
  if options.printed then
    match expand settings listener heard document with
    | .error fault => Report.ofFault options.source document fault
    | .ok (result, heard) => return ⟨result, warnings heard, none, true⟩
  else
    match expandFile settings listener heard options.source options.outputFile document with
    | .error fault => Report.ofFault options.source document fault
    | .ok expansion =>
      return ⟨summary options expansion.expanded, warnings expansion.heard, expansion.written,
        true⟩

def run (options : Options) (document : Text) : Except Breakdown Report :=
  match options.audience with
  | .silent => runWith options .silent () (fun _ => []) document
  | .reporting => runWith options .reporting [] id document
  | .strict => runWith options .strict () (fun _ => []) document

def missing (source : Text) : Report :=
  ⟨[], line ("No such file: ".toList ++ source), none, false⟩

def Report.store (report : Report) (store : FileStore) : FileStore :=
  match report.written with
  | some (path, content) => store.write path content
  | none => store

def Report.status (report : Report) : Nat :=
  if report.succeeded then 0 else 1

end CommentMacro.Command
