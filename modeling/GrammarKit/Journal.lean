import GrammarKit.Diagnostic

/-!
# Journal of a run

Some operations report what they did besides returning a value. A note names the event; how
serious it is, which part of the library it belongs to and its wording follow from that. A noted
computation returns its notes in order, also when it fails.
-/

namespace GrammarKit

set_option autoImplicit false

inductive Gravity where
  | debug
  | info
  | warning
  | error
deriving DecidableEq, Repr

inductive Topic where
  | grammar
  | firsts
  | follows
  | precedence
  | validation
  | sentences
  | lexer
deriving DecidableEq, Repr

inductive Note where
  | grammarBuilt (terminals nonterminals productions : Nat) (start : String)
  | firstsConverged (passes : Nat)
  | followsConverged (passes : Nat)
  | checksSkipped (undefinedSymbols : Nat)
  | finding (topic : Topic) (diagnostic : Diagnostic)
  | unboundedSentences (name : String)
  | tokensRejected (message : String)
  | tokensDiffer (missingFromLexer missingFromParser : Nat)
deriving DecidableEq

namespace Note

def gravity : Note → Gravity
  | grammarBuilt _ _ _ _ => .debug
  | firstsConverged _ => .debug
  | followsConverged _ => .debug
  | checksSkipped _ => .debug
  | finding _ diagnostic => if diagnostic.isError then .warning else .info
  | unboundedSentences _ => .debug
  | tokensRejected _ => .error
  | tokensDiffer _ _ => .debug

def topic : Note → Topic
  | grammarBuilt _ _ _ _ => .grammar
  | firstsConverged _ => .firsts
  | followsConverged _ => .follows
  | checksSkipped _ => .validation
  | finding topic _ => topic
  | unboundedSentences _ => .sentences
  | tokensRejected _ => .lexer
  | tokensDiffer _ _ => .lexer

def text : Note → String
  | grammarBuilt terminals nonterminals productions start =>
      "Built grammar: " ++ toString terminals ++ " terminals, " ++ toString nonterminals
        ++ " nonterminals, " ++ toString productions ++ " productions, start '" ++ start ++ "'"
  | firstsConverged passes => "FIRST sets converged after " ++ toString passes ++ " passes"
  | followsConverged passes => "FOLLOW sets converged after " ++ toString passes ++ " passes"
  | checksSkipped undefinedSymbols =>
      "Skipping index based checks, " ++ toString undefinedSymbols ++ " undefined symbols"
  | finding _ diagnostic => diagnostic.text
  | unboundedSentences name => "'" ++ name ++ "' is recursive: its sentences are unbounded"
  | tokensRejected message => message
  | tokensDiffer missingFromLexer missingFromParser =>
      "Lexer/grammar token mismatch: " ++ toString missingFromLexer ++ " missing from lexer, "
        ++ toString missingFromParser ++ " missing from parser"

end Note

structure Noted (α : Type) where
  notes : List Note
  outcome : Except Fault α

namespace Noted

variable {α β : Type}

def andThen (first : Noted α) (next : α → Noted β) : Noted β :=
  match first.outcome with
  | .ok value => ⟨first.notes ++ (next value).notes, (next value).outcome⟩
  | .error fault => ⟨first.notes, .error fault⟩

instance : Monad Noted where
  pure value := ⟨[], .ok value⟩
  bind := andThen

instance : MonadLift (Except Fault) Noted where
  monadLift outcome := ⟨[], outcome⟩

def fail (fault : Fault) : Noted α := ⟨[], .error fault⟩

def note (event : Note) : Noted Unit := ⟨[event], .ok ()⟩

theorem outcome_bind_ok {first : Noted α} {next : α → Noted β} {value : α}
    (succeeded : first.outcome = .ok value) :
    (first >>= next).outcome = (next value).outcome := by
  change (first.andThen next).outcome = _
  simp [andThen, succeeded]

theorem outcome_bind_error {first : Noted α} {next : α → Noted β} {fault : Fault}
    (failed : first.outcome = .error fault) : (first >>= next).outcome = .error fault := by
  change (first.andThen next).outcome = _
  simp [andThen, failed]

end Noted

end GrammarKit
