/-!
# Labelled tables

A frame shows data as rows and columns with labels. Labels need not differ from each other.
-/

namespace GrammarKit

set_option autoImplicit false

structure Frame (ι κ : Type) where
  columns : List String
  index : List ι
  rows : List (List κ)

end GrammarKit
