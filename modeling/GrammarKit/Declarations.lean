import GrammarKit.Precedence
import GrammarKit.Register

/-!
# Declarations

What the author of a grammar wrote, before anything is checked: rules with their alternatives,
tokens, precedence lines, start rules, tokens allowed anywhere and the texts shown for tokens in
error messages.
-/

namespace GrammarKit

set_option autoImplicit false

/-- The dialect of the declarations. Only `eco` grammars may declare tokens that are allowed before
the input starts and behind every token. -/
inductive Variant where
  | plain
  | eco
deriving DecidableEq, Repr

/-- An occurrence of a name in an alternative. A stray text says neither rule nor token. -/
inductive Reference where
  | rule (name : String)
  | token (name : String)
  | stray (text : String)
deriving DecidableEq, Repr

structure Alternative where
  references : List Reference
  precedence : Option String := none
deriving DecidableEq, Repr

structure RuleDeclaration where
  name : String
  alternatives : List Alternative
deriving DecidableEq, Repr

structure PrecedenceLine where
  associativity : Associativity
  tokens : List String
deriving DecidableEq, Repr

/-- Precedence lines go from the weakest to the tightest. `implicitTokens` is `none` when the
declaration is missing, which is not the same as an empty one. -/
structure Declarations where
  rules : List RuleDeclaration := []
  tokens : List String := []
  precedenceLines : List PrecedenceLine := []
  starts : List String := []
  implicitTokens : Option (List String) := none
  errorTexts : Register String String := ∅

namespace Declarations

instance : Inhabited Declarations where
  default := {}

def ruleNames (declarations : Declarations) : List String :=
  declarations.rules.map (·.name)

def addRule (declarations : Declarations) (name : String) (alternatives : List Alternative) :
    Declarations :=
  { declarations with rules := declarations.rules ++ [⟨name, alternatives⟩] }

end Declarations

end GrammarKit
