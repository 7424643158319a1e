import CommentMacro.Bindings

/-!
# Files

The files that a run can reach, each with its content and the time of its last
change. A time is either set from outside or that of a write by the program
itself; no two writes share a time, and none has a time set from outside.
-/

namespace CommentMacro.Command

/-- The time at which a file was last changed. -/
inductive Stamp where
  /-- Set from outside. -/
  | given (time : Int)
  /-- That of the `n`-th write by the program. -/
  | written (n : Nat)
  deriving DecidableEq, Repr, Inhabited

structure File where
  content : Text
  stamp : Stamp
  deriving DecidableEq, Repr, Inhabited

/-- The files by name, and how many writes the program has made. -/
structure FileStore where
  files : Bindings File
  writes : Nat
  deriving DecidableEq, Repr, Inhabited

namespace FileStore

/-- The name of the file that a path leads to: steps that stay in place do not
count. -/
def nameOf (path : Text) : Text :=
  match (Text.splitBy (· == '/') path).reverse with
  | name :: first :: steps =>
    if (first :: steps).getLast? != some [] && (first :: steps).all (fun s => s = ['.'] || s = [])
    then name else path
  | _ => path

def file? (store : FileStore) (path : Text) : Option File :=
  Bindings.get? (nameOf path) store.files

def content? (store : FileStore) (path : Text) : Option Text :=
  (store.file? path).map File.content

def stamp? (store : FileStore) (path : Text) : Option Stamp :=
  (store.file? path).map File.stamp

def put (store : FileStore) (path : Text) (file : File) : FileStore :=
  { store with files := store.files.insert (nameOf path) file }

/-- A write by the program, at a time of its own. -/
def write (store : FileStore) (path content : Text) : FileStore :=
  { store.put path ⟨content, .written store.writes⟩ with writes := store.writes + 1 }

def delete (store : FileStore) (path : Text) : FileStore :=
  { store with files := store.files.filter fun entry => entry.1 ≠ nameOf path }

def touch (store : FileStore) (path : Text) (time : Int) : FileStore :=
  match store.content? path with
  | some content => store.put path ⟨content, .given time⟩
  | none => store

/-- The files with the given contents, all of one time. -/
def ofList (time : Int) (contents : List (Text × Text)) : FileStore :=
  contents.foldl (fun store entry => store.put entry.1 ⟨entry.2, .given time⟩) ⟨[], 0⟩

def sorted (store : FileStore) : List (Text × File) :=
  store.files.mergeSort fun a b => !decide (b.1 < a.1)

@[simp] theorem content?_write_self (store : FileStore) (path content : Text) :
    (store.write path content).content? path = some content := by
  simp [content?, file?, write, put]

end FileStore

end CommentMacro.Command
