namespace MilpRounding

inductive Document
  | nothing
  | boolean (b : Bool)
  | integer (n : Int)
  | real (x : Float)
  | text (s : String)
  | list (items : List Document)
  | object (fields : List (String × Document))
  deriving Inhabited

namespace Document

def find? (name : String) (fields : List (String × Document)) : Option Document :=
  fields.reverse.lookup name

/-- Every field once, at the place of its first appearance and with the value of its last. -/
def unique (fields : List (String × Document)) : List (String × Document) :=
  (fields.map (·.1)).eraseDups.filterMap fun name => (find? name fields).map (name, ·)

end Document

end MilpRounding
