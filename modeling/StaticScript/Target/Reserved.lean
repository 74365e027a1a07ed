/-!
# Reserved names

The names that a C++ program cannot use for its own variables and functions.
-/

namespace StaticScript.Target

/-- The names that are taken. -/
def reservedNames : List String :=
  ["auto", "bool", "case", "char", "class", "const", "default", "delete", "do", "double", "enum",
   "extern", "float", "goto", "int", "long", "main", "namespace", "new", "operator", "private",
   "protected", "public", "register", "short", "signed", "sizeof", "static", "std", "struct",
   "switch", "template", "this", "throw", "typedef", "typename", "union", "unsigned", "using",
   "virtual", "void", "volatile"]

/-- The name is taken. -/
def isReserved (name : String) : Bool := reservedNames.contains name

end StaticScript.Target
