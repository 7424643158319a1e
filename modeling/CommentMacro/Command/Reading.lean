import CommentMacro.Command.Cluster
import CommentMacro.Decimal.Reader

/-!
# Reading a command line

The arguments are met from left to right. Each option changes what has been read
so far, the first plain argument is the source, and whatever else is left over
makes the whole line unusable. `Options.ofArguments` gives the options, or says
that the command line is misused or that help is asked for; of several faults
the first one met counts.
-/

namespace CommentMacro.Command

/-- What has been read of a command line: the options so far, which of the two
exclusive ones were given, the source, and whether anything was left over. -/
structure Reading where
  options : Options
  source : Option Text
  outputGiven : Bool
  printedGiven : Bool
  leftover : Bool
  deriving Inhabited

namespace Reading

def start : Reading :=
  ⟨.default, none, false, false, false⟩

/-- Meets a request. The result goes to a file or is printed, not both. -/
def meet (reading : Reading) (request : Request) : Except Refusal Reading :=
  let options := reading.options
  match request.flag with
  | .help => .error .helpWanted
  | .sign => .ok { reading with options := { options with sign := .ofText request.text } }
  | .output =>
    if reading.printedGiven then .error .misused
    else .ok { reading with
      options := { options with output := some (.ofText request.text) }, outputGiven := true }
  | .printed =>
    if reading.outputGiven then .error .misused
    else .ok { reading with options := { options with printed := true }, printedGiven := true }
  | .scoping =>
    match Entry.read? Scoping.ofName? request.text with
    | some scoping => .ok { reading with options := { options with scoping := scoping } }
    | none => .error .misused
  | .strict => .ok { reading with options := { options with strict := true } }
  | .verbose => .ok { reading with options := { options with verbose := true } }
  | .watch => .ok { reading with options := { options with watch := true } }
  | .interval =>
    match Entry.read? Decimal.read? request.text with
    | some interval => .ok { reading with options := { options with interval := interval } }
    | none => .error .misused

def meetAll (reading : Reading) (requests : List Request) : Except Refusal Reading :=
  requests.foldlM meet reading

def leave (reading : Reading) (leftover : Bool) : Reading :=
  { reading with leftover := reading.leftover || leftover }

end Reading

def Reading.finish (reading : Reading) : Except Refusal Options :=
  match reading.source with
  | some source =>
    if reading.leftover then .error .misused else .ok { reading.options with source := source }
  | none => .error .misused

/-- Reads arguments one after another. The first plain argument is the source,
and the separator has its place directly before or behind it. An option that
awaits its text takes the next argument, which must be a plain one. -/
def Reading.readAll (reading : Reading) : List Argument → Except Refusal Reading
  | [] => .ok reading
  | .plain t :: rest =>
    match reading.source, rest with
    | none, .separator :: rest => { reading with source := some t }.readAll rest
    | none, rest => { reading with source := some t }.readAll rest
    | some _, rest => (reading.leave true).readAll rest
  | .unknown :: rest => (reading.leave true).readAll rest
  | .separator :: rest => (reading.leave reading.source.isSome).readAll rest
  | .option flag attached :: rest =>
    match Cluster.of flag attached with
    | .error refusal => .error refusal
    | .ok cluster =>
      match cluster.awaiting, rest with
      | none, rest => do
        let reading ← reading.meetAll cluster.complete
        reading.readAll rest
      | some flag, .plain t :: rest => do
        let reading ← reading.meetAll (cluster.complete ++ [⟨flag, t⟩])
        reading.readAll rest
      | some _, _ => .error .misused

def Options.ofArguments (arguments : List Text) : Except Refusal Options := do
  let arguments ← Argument.readAll arguments
  let reading ← Reading.start.readAll arguments
  reading.finish

end CommentMacro.Command
