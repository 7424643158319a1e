import CommentMacro.Bindings
import CommentMacro.Text.Quoted

/-!
# Values

The data that templates read. `Value.display` is the text that a value
contributes to an output, and `Value.literal` the form it takes inside a list or
a record, where a text is quoted.
-/

namespace CommentMacro

inductive Value where
  | text (t : Text)
  | integer (n : Int)
  | boolean (b : Bool)
  | absent
  | list (items : List Value)
  | record (fields : List (Text × Value))
  deriving Inhabited

namespace Value

mutual

/-- A value inside a list or a record: texts are quoted. -/
def literal : Value → Text
  | text t => t.quoted
  | integer n => Text.ofInt n
  | boolean true => "True".toList
  | boolean false => "False".toList
  | absent => "None".toList
  | list items => '[' :: literalItems items ++ [']']
  | record fields => '\x7b' :: literalFields fields ++ ['\x7d']

/-- The items of a list, a comma between neighbours. -/
def literalItems : List Value → Text
  | [] => []
  | [item] => literal item
  | item :: items => literal item ++ ", ".toList ++ literalItems items

def literalFields : List (Text × Value) → Text
  | [] => []
  | [(name, value)] => name.quoted ++ ": ".toList ++ literal value
  | (name, value) :: fields =>
    name.quoted ++ ": ".toList ++ literal value ++ ", ".toList ++ literalFields fields

end

/-- The text of a value in an output: a text stands for itself. -/
def display : Value → Text
  | text t => t
  | value => literal value

/-- The rows that a loop runs over: a value that is not a list has none. -/
def rows : Value → List Value
  | list items => items
  | _ => []

example : display (list [text "a".toList, integer (-7), record [("k".toList, absent)]]) =
    "['a', -7, \x7b'k': None\x7d]".toList := by decide

end Value

end CommentMacro
