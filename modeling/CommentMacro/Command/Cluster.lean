import CommentMacro.Command.Argument

/-!
# Clusters

One argument may hold several short options behind one dash. A cluster is what
an option argument asks for: the requests that are complete, and the option that
still awaits its text, which then is the next argument.
-/

namespace CommentMacro.Command

/-- The requests of one argument: those complete in themselves, and the option
whose text is the next argument. -/
structure Cluster where
  complete : List Request
  awaiting : Option Flag
  deriving DecidableEq, Repr, Inhabited

namespace Cluster

def push (flag : Flag) (cluster : Cluster) : Cluster :=
  { cluster with complete := ⟨flag, []⟩ :: cluster.complete }

def bare (flag : Flag) : Cluster :=
  if flag.takesText then ⟨[], some flag⟩ else ⟨[⟨flag, []⟩], none⟩

def assigned (flag : Flag) (t : Text) : Except Refusal Cluster :=
  if flag.takesText then .ok ⟨[⟨flag, t⟩], none⟩ else .error .misused

/-- A short option and what is behind it: its text, or more short options. -/
def run (flag : Flag) : Text → Except Refusal Cluster
  | [] => assigned flag []
  | c :: t =>
    if flag.takesText then assigned flag (c :: t)
    else match Flag.named? ['-', c] with
      | none => .error .misused
      | some next => push flag <$> if t.isEmpty then .ok (bare next) else run next t

def of (flag : Flag) : Attached → Except Refusal Cluster
  | .nothing => .ok (bare flag)
  | .assigned t => assigned flag t
  | .behind t => run flag t

end Cluster

end CommentMacro.Command
