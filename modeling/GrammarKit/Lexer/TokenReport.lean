import GrammarKit.SortedSet

/-!
# Differences between a lexer and a grammar

The tokens that a lexer defines and the tokens that a grammar uses may differ in both directions.
A report holds both differences, each as a set of names.
-/

namespace GrammarKit

set_option autoImplicit false

structure TokenReport where
  missingFromLexer : NameSet
  missingFromParser : NameSet
deriving DecidableEq

/-- The difference for which a report is rejected. -/
inductive TokenGap where
  | undefinedInLexer
  | unusedInGrammar
deriving DecidableEq, Repr

namespace TokenReport

def isClean (report : TokenReport) : Bool :=
  report.missingFromLexer.toList.isEmpty && report.missingFromParser.toList.isEmpty

def missing (report : TokenReport) : TokenGap → NameSet
  | .undefinedInLexer => report.missingFromLexer
  | .unusedInGrammar => report.missingFromParser

def rejection (report : TokenReport) (gap : TokenGap) : String :=
  let complaint :=
    match gap with
    | .undefinedInLexer =>
        "The following tokens are used in the grammar but are not defined in the lexer: "
    | .unusedInGrammar =>
        "The following tokens are defined in the lexer but not used in the grammar: "
  complaint ++ ", ".intercalate (report.missing gap).toList

end TokenReport

end GrammarKit
