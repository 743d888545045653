/-!
# Fresh names

A synthetic symbol takes its base name with as few apostrophes behind it as keep it apart from all
names in use. Each attempt that fails uses up a different name, so there are never more attempts
than names in use.
-/

namespace GrammarKit

set_option autoImplicit false

/-- Appends apostrophes until the name is free, at most `attempts` of them. -/
def primeUntilFree (taken : List String) : Nat → String → String
  | 0, name => name
  | attempts + 1, name =>
      if name ∈ taken then primeUntilFree taken attempts (name ++ "'") else name

def freshName (taken : List String) (base : String) : String :=
  primeUntilFree taken taken.length base

end GrammarKit
