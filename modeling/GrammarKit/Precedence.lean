/-!
# Precedence levels

A later line of precedence declarations binds tighter, so a level is a number that grows with the
line. Tokens of one line share level and associativity.
-/

namespace GrammarKit

set_option autoImplicit false

inductive Associativity where
  | left
  | right
  | nonassociative
deriving DecidableEq, Repr

namespace Associativity

def text : Associativity → String
  | .left => "left"
  | .right => "right"
  | .nonassociative => "nonassoc"

end Associativity

structure Precedence where
  level : Int
  associativity : Associativity
deriving DecidableEq, Repr

namespace Precedence

def text (precedence : Precedence) : String :=
  precedence.associativity.text ++ ":" ++ toString precedence.level

end Precedence

end GrammarKit
