/-!
# Quoted text

A text is shown between quote marks, with a backslash before each mark or backslash inside it and
a letter for the line and tabulator characters. Single marks are used unless that would escape a
single mark that double marks leave alone.
-/

namespace GrammarKit.Text

set_option autoImplicit false

def singleMark : Char := '\''

def doubleMark : Char := '"'

/-- Double marks are used for a text that has a single mark and no double mark. -/
def markOf (text : List Char) : Char :=
  if singleMark ∈ text ∧ doubleMark ∉ text then doubleMark else singleMark

def escaped (mark : Char) (char : Char) : List Char :=
  if char = mark ∨ char = '\\' then ['\\', char]
  else if char = '\n' then ['\\', 'n']
  else if char = '\t' then ['\\', 't']
  else if char = '\r' then ['\\', 'r']
  else [char]

def quotedChars (text : List Char) : List Char :=
  let mark := markOf text
  mark :: (text.flatMap (escaped mark) ++ [mark])

def quoted (text : String) : String := String.ofList (quotedChars text.toList)

def quotedList (texts : List String) : String :=
  "[" ++ ", ".intercalate (texts.map quoted) ++ "]"

end GrammarKit.Text
