import CommentMacro.Command.Run

/-!
# Watching a file

A watched file is expanded once, and again whenever its time of change is not
the one seen last. The time is looked at again after each run, so that a write
of the program itself is not taken for a change. While the file is missing
nothing happens. A run that breaks off ends the watch.
-/

namespace CommentMacro.Command

structure Look where
  output : Text
  errors : Text
  deriving DecidableEq, Repr, Inhabited

def Look.idle : Look :=
  ⟨[], []⟩

/-- A watch in progress: the files, and the time of change seen last. -/
structure Watch where
  store : FileStore
  last : Option Stamp
  deriving DecidableEq, Repr, Inhabited

/-- Something that happens to the files while the program sleeps. -/
inductive Edit where
  | nothing
  | write (path content : Text) (time : Int)
  | touch (path : Text) (time : Int)
  | delete (path : Text)
  deriving DecidableEq, Repr, Inhabited

def FileStore.edit (store : FileStore) : Edit → FileStore
  | .nothing => store
  | .write path content time => store.put path ⟨content, .given time⟩
  | .touch path time => store.touch path time
  | .delete path => store.delete path

namespace Watch

def announcement (source : Text) : Text :=
  line ("Watching ".toList ++ source ++ " for changes...".toList)

def notice (source : Text) : Text :=
  line ("File changed: ".toList ++ source ++ ", recompiling...".toList)

def sight (options : Options) (store : FileStore) : Watch :=
  ⟨store, store.stamp? options.source⟩

/-- The first run, and the watch that begins after it. -/
def begin (options : Options) (store : FileStore) (document : Text) :
    Except Breakdown (Look × Watch) := do
  let report ← run options document
  return (⟨report.output ++ announcement options.source, report.errors⟩,
    sight options (report.store store))

/-- Whether a file is to be expanded again: it is there, and its time of change
is not the one seen last. -/
def isDue (last now : Option Stamp) : Bool :=
  now.isSome && now != last

def look (options : Options) (watch : Watch) : Except Breakdown (Look × Watch) :=
  match watch.store.file? options.source with
  | none => .ok (.idle, watch)
  | some file =>
    if isDue watch.last (some file.stamp) then do
      let report ← run options file.content
      return (⟨notice options.source ++ report.output, report.errors⟩,
        sight options (report.store watch.store))
    else .ok (.idle, watch)

/-- What is seen at the start of each sleep: what was printed since the one
before, and the files. Sleeps and writes are taken to succeed, so that the
interval of the options plays no part. -/
def session (options : Options) : (shown : Look) → Watch → List Edit →
    Except Breakdown (List (Look × FileStore))
  | shown, watch, [] => .ok [(shown, watch.store)]
  | shown, watch, edit :: edits => do
    let (next, after) ← look options { watch with store := watch.store.edit edit }
    return (shown, watch.store) :: (← session options next after edits)

end Watch

/-- What a command line comes to on given files: the report on a source that is
missing or that is expanded once, or what is seen at each sleep of a watch. -/
inductive Outcome where
  | once (report : Report) (store : FileStore)
  | watched (snapshots : List (Look × FileStore))
  deriving DecidableEq, Repr, Inhabited

/-- Carries out a command line on given files, on which the edits are made during
the sleeps of a watch. -/
def perform (options : Options) (store : FileStore) (edits : List Edit) :
    Except Breakdown Outcome :=
  match store.content? options.source with
  | none => .ok (.once (missing options.source) store)
  | some document =>
    if options.watch then do
      let (shown, watch) ← Watch.begin options store document
      return .watched (← Watch.session options shown watch edits)
    else do
      let report ← run options document
      return .once report (report.store store)

end CommentMacro.Command
