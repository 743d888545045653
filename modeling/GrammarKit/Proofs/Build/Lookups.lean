import GrammarKit.Proofs.Build.Valid

/-!
# Look-ups that cannot miss

Construction by look-up keeps checks and tables apart: it tests whether a name is known and later
fetches the symbol of that name from a table that fails for unknown names, and it addresses the
tables of the grammar from their ends. Each of these steps would have a failure of its own. They
never show, since the checks that ran before cover every name that is fetched, so both ways of
construction give the same grammar or fail for the same reason.
-/

namespace GrammarKit

set_option autoImplicit false

/-- The value under a key, with a failure of its own for unknown keys. -/
def Register.fetch {ν : Type} (register : Register String ν) (key : String) : Except Fault ν :=
  require (register.find? key) (.unknownKey key)

theorem Register.fetch_if_contains {ν β : Type} (register : Register String ν) (key : String)
    (fault : Fault) (next : ν → Except Fault β) :
    (if register.contains key then register.fetch key >>= next else .error fault) =
      require (register.find? key) fault >>= next := by
  unfold contains fetch
  cases register.find? key <;> rfl

def byName (symbols : List Symbol) : Register String Symbol :=
  Register.ofPairs (symbols.map fun symbol => (symbol.name, symbol))

/-- The tables that the names in alternatives are fetched from. -/
structure Dictionary where
  rules : Register String Symbol
  tokens : Register String Symbol
  implicitRule : Option Symbol
  precedences : Register String Precedence

namespace Dictionary

def resolve (dictionary : Dictionary) (user : String) : Reference → Except Fault (List Symbol)
  | .rule name =>
      if dictionary.rules.contains name then do
        let symbol ← dictionary.rules.fetch name
        return [symbol]
      else throw (.rejected (.unknownRule user name))
  | .token name =>
      if dictionary.tokens.contains name then do
        let symbol ← dictionary.tokens.fetch name
        return symbol :: dictionary.implicitRule.toList
      else throw (.rejected (.unknownToken user name))
  | .stray text => throw (.strayReference text)

def checkPrecedence (dictionary : Dictionary) : Option String → Except Fault Unit
  | none => return ()
  | some token =>
      if dictionary.precedences.contains token then return ()
      else throw (.rejected (.noPrecedence token))

def clausesOf (dictionary : Dictionary) (rule : RuleDeclaration) : Except Fault (List Clause) := do
  let lhs ← dictionary.rules.fetch rule.name
  rule.alternatives.mapM fun alternative => do
    let symbols ← alternative.references.mapM (dictionary.resolve rule.name)
    dictionary.checkPrecedence alternative.precedence
    return ⟨lhs, symbols.flatten, alternative.precedence⟩

def errorText (dictionary : Dictionary) (entry : String × String) : Except Fault (Int × String) :=
  if dictionary.tokens.contains entry.1 then do
    let token ← dictionary.tokens.fetch entry.1
    return (token.index, entry.2)
  else throw (.rejected (.unknownErrorText entry.1))

def implicitClauses (dictionary : Dictionary) (names : List String) :
    Except Fault (List Clause) :=
  match dictionary.implicitRule with
  | none => return []
  | some rule => do
      let tokens ← names.mapM dictionary.tokens.fetch
      return tokens.map (fun token => ⟨rule, [token, rule], none⟩) ++ [⟨rule, [], none⟩]

end Dictionary

namespace Declarations

def startName (declarations : Declarations) : Except Fault String :=
  match distinct declarations.starts with
  | [] => require declarations.ruleNames.head? .outsideTable
  | [name] =>
      if name ∈ declarations.ruleNames then return name
      else throw (.rejected (.undefinedStart name))
  | first :: second :: others => throw (.rejected (.conflictingStarts first second others))

def implicitRuleNames (declarations : Declarations) (variant : Variant) : List String :=
  if declarations.hasImplicitRule variant then
    [freshName (declarations.ruleNames ++ declarations.tokenNames) implicitRuleBase]
  else []

def nonterminalNames (declarations : Declarations) (variant : Variant) (start : String) :
    List String :=
  let others := declarations.implicitRuleNames variant
  declarations.ruleNames ++ others ++
    [freshName (declarations.ruleNames ++ declarations.tokenNames ++ others) (start ++ "'")]

/-- The checked names of the implicit tokens. The symbols are fetched later. -/
def implicitTokenNames (declarations : Declarations) (variant : Variant) :
    Except Fault (List String) :=
  match declarations.implicitTokens, variant with
  | none, _ => return []
  | some _, .plain => throw (.rejected .implicitTokensRefused)
  | some names, .eco => do
      names.forM fun name =>
        if name ∈ declarations.tokenNames then return ()
        else throw (.rejected (.unknownImplicitToken name))
      return distinct names

def terminalTable (declarations : Declarations) : List Symbol :=
  numberedSymbols .terminal (declarations.tokenNames ++ [endOfInput])

def nonterminalTable (declarations : Declarations) (variant : Variant) (start : String) :
    List Symbol :=
  numberedSymbols .nonterminal (declarations.nonterminalNames variant start)

/-- The implicit rule is the last nonterminal but one. -/
def implicitRuleByPlace (declarations : Declarations) (variant : Variant) (start : String) :
    Except Fault (Option Symbol) :=
  if declarations.hasImplicitRule variant then do
    let symbol ← require (item? (declarations.nonterminalTable variant start) (-2)) .outsideGrammar
    return some symbol
  else return none

def openDictionary (declarations : Declarations) (variant : Variant) (start : String)
    (implicitRule : Option Symbol) (precedences : Register String Precedence) : Dictionary where
  rules := byName
    ((declarations.nonterminalTable variant start).take declarations.ruleNames.length)
  tokens := byName declarations.terminalTable.dropLast
  implicitRule := implicitRule
  precedences := precedences

/-- Adds the clause for the whole input and hands the tables over. -/
def assembleByLookup (declarations : Declarations) (variant : Variant) (start : String)
    (dictionary : Dictionary) (clauses : List Clause) (errorTexts : Register Int String) :
    Except Fault Grammar := do
  let nonterminals := declarations.nonterminalTable variant start
  let start ← dictionary.rules.fetch start
  let augmented ← require (item? nonterminals (-1)) .outsideGrammar
  let eof ← require (item? declarations.terminalTable (-1)) .outsideGrammar
  let whole : Clause := ⟨augmented, dictionary.implicitRule.toList ++ [start, eof], none⟩
  let grammar ← Grammar.assemble declarations.terminalTable nonterminals
    (numberedProductions (clauses ++ [whole])) start dictionary.precedences errorTexts
  return { grammar with variant := variant, implicitRule := dictionary.implicitRule }

def buildByLookup (declarations : Declarations) (variant : Variant) : Except Fault Grammar := do
  declarations.checkRules
  let start ← declarations.startName
  declarations.tokenNames.forM declarations.checkToken
  let precedences ← declarations.precedences
  let implicitRule ← declarations.implicitRuleByPlace variant start
  let dictionary := declarations.openDictionary variant start implicitRule precedences
  let clauses ← declarations.rules.mapM dictionary.clausesOf
  let errorTexts ← declarations.errorTexts.entries.mapM dictionary.errorText
  let implicitTokens ← declarations.implicitTokenNames variant
  let implicitClauses ← dictionary.implicitClauses implicitTokens
  declarations.assembleByLookup variant start dictionary (clauses.flatten ++ implicitClauses)
    (Register.ofPairs errorTexts)

end Declarations

section Tables

theorem find_by_name {symbols : List Symbol} (apart : (symbols.map (·.name)).Nodup)
    (name : String) :
    (byName symbols).find? name = symbols.find? fun symbol => symbol.name = name := by
  have once : ((symbols.map fun symbol => (symbol.name, symbol)).map (·.1)).Nodup := by
    simpa [Function.comp_def] using apart
  unfold byName Register.find?
  rw [Register.entries_of_pairs once, List.find?_map]
  simp [Function.comp_def]

theorem fetch_by_name {symbols : List Symbol} (apart : (symbols.map (·.name)).Nodup)
    {symbol : Symbol} (member : symbol ∈ symbols) :
    (byName symbols).fetch symbol.name = .ok symbol := by
  unfold Register.fetch
  rw [find_by_name apart, found_by_name apart member, require_some]

theorem numbered_symbols_append (kind : SymbolKind) (front back : List String) :
    numberedSymbols kind (front ++ back) =
      numberedSymbols kind front ++
        (back.zipIdx front.length).map fun (name, index) => ⟨kind, index, name⟩ := by
  simp [numberedSymbols, List.zipIdx_append]

theorem item_from_end {α : Type} (front later : List α) (item : α) :
    item? (front ++ item :: later) (-(later.length + 1 : Int)) = some item := by
  have place : slot? (front ++ item :: later).length (-(later.length + 1 : Int)) =
      some front.length := by
    rw [List.length_append, List.length_cons]
    unfold slot?
    rw [if_neg (by omega), if_pos (by omega), Option.some.injEq]
    omega
  unfold item?
  rw [place]
  simp

end Tables

namespace Declarations

variable {declarations : Declarations} {variant : Variant}

theorem rule_symbol_names : declarations.ruleSymbols.map (·.name) = declarations.ruleNames :=
  names_of_numbered .nonterminal declarations.ruleNames

theorem start_name_of_symbol (given : declarations.rules ≠ []) :
    declarations.startName = declarations.startSymbol.map (·.name) := by
  unfold startName startSymbol
  rcases distinct declarations.starts with _ | ⟨name, _ | ⟨second, others⟩⟩
  · rw [← rule_symbol_names, List.head?_map]
    have some_rule : declarations.ruleSymbols ≠ [] := by
      intro nothing
      apply given
      rw [← List.length_eq_zero_iff, ← length_rule_symbols, nothing]
      rfl
    rw [List.head?_eq_some_head some_rule]
    rfl
  · have found : (declarations.ruleSymbols.find? fun symbol => symbol.name = name).isSome ↔
        name ∈ declarations.ruleNames := numbered_symbol_found .nonterminal _
    change (if name ∈ declarations.ruleNames then Except.ok name else _) =
      (require (declarations.ruleSymbols.find? fun symbol => symbol.name = name) _).map _
    cases lookup : declarations.ruleSymbols.find? fun symbol => symbol.name = name with
    | none =>
        rw [lookup] at found
        have unknown : name ∉ declarations.ruleNames := by simpa using found
        rw [if_neg unknown]
        rfl
    | some symbol =>
        rw [lookup] at found
        have named : symbol.name = name := by simpa using List.find?_some lookup
        have known : name ∈ declarations.ruleNames := by simpa using found
        rw [if_pos known, ← named]
        rfl
  · rfl

theorem terminal_table :
    declarations.terminalTable =
      numberedSymbols .terminal declarations.tokenNames ++ [declarations.eofSymbol] := by
  unfold terminalTable eofSymbol
  rw [numbered_symbols_append]
  simp

theorem nonterminal_table (start : Symbol) :
    declarations.nonterminalTable variant start.name =
      declarations.ruleSymbols ++ (declarations.implicitRule? variant).toList ++
        [declarations.augmentedStart start (declarations.implicitRule? variant)] := by
  unfold nonterminalTable nonterminalNames implicitRuleNames implicitRule? augmentedStart ruleSymbols
  by_cases implicit : declarations.hasImplicitRule variant
  · simp only [if_pos implicit]
    rw [numbered_symbols_append, numbered_symbols_append]
    simp [ruleNames]
  · simp only [if_neg implicit]
    rw [numbered_symbols_append]
    simp [ruleNames]

def dictionary (declarations : Declarations) (variant : Variant)
    (precedences : Register String Precedence) : Dictionary where
  rules := byName declarations.ruleSymbols
  tokens := byName (numberedSymbols .terminal declarations.tokenNames)
  implicitRule := declarations.implicitRule? variant
  precedences := precedences

section Stages

variable (variant) (precedences : Register String Precedence)

omit variant precedences in
theorem token_symbol_names_nodup :
    ((numberedSymbols .terminal declarations.tokenNames).map (·.name)).Nodup := by
  rw [names_of_numbered]
  exact (distinct_lists_once declarations.declaredTokens).nodup

theorem token_by_name (name : String) :
    (declarations.dictionary variant precedences).tokens.find? name =
      (declarations.scope variant precedences).token? name :=
  find_by_name token_symbol_names_nodup name

theorem error_texts_by_name :
    (declarations.errorTexts.entries.mapM
        (declarations.dictionary variant precedences).errorText).map Register.ofPairs =
      declarations.numberedErrorTexts (declarations.scope variant precedences) := by
  have each : ∀ entry ∈ declarations.errorTexts.entries,
      (declarations.dictionary variant precedences).errorText entry = (do
        let token ← require ((declarations.scope variant precedences).token? entry.1)
          (.rejected (.unknownErrorText entry.1))
        return (token.index, entry.2)) := by
    intro entry _
    rw [← token_by_name variant precedences]
    exact Register.fetch_if_contains _ _ _ _
  rw [except_map_m_congr each]
  unfold numberedErrorTexts
  rfl

theorem implicit_clauses_of_tokens (tokens : List Symbol)
    (listed : ∀ token ∈ tokens, token ∈ numberedSymbols .terminal declarations.tokenNames) :
    (declarations.dictionary variant precedences).implicitClauses (tokens.map (·.name)) =
      .ok (implicitClauses (declarations.implicitRule? variant) tokens) := by
  have fetched : (tokens.map (·.name)).mapM
      (declarations.dictionary variant precedences).tokens.fetch = .ok (tokens.map id) := by
    rw [List.mapM_map]
    apply except_map_m_ok
    intro token member
    exact fetch_by_name token_symbol_names_nodup (listed token member)
  rw [List.map_id] at fetched
  unfold Dictionary.implicitClauses implicitClauses
  rw [fetched]
  unfold dictionary
  cases declarations.implicitRule? variant <;> rfl

/-- A name is checked by the list of tokens where the other construction looks the token up. -/
theorem implicit_token_checked (names : List String) :
    (names.forM fun name =>
        if name ∈ declarations.tokenNames then pure ()
        else throw (.rejected (.unknownImplicitToken name))) =
      (names.mapM fun name => require ((declarations.scope variant precedences).token? name)
        (.rejected (.unknownImplicitToken name))).map fun _ => () := by
  apply except_for_m_of_map_m
  intro name _
  have found : ((declarations.scope variant precedences).token? name).isSome ↔
      name ∈ declarations.declaredTokens := token_found
  rw [← mem_token_names] at found
  cases lookup : (declarations.scope variant precedences).token? name with
  | none =>
      rw [if_neg (by simp [← found, lookup])]
      rfl
  | some token =>
      rw [if_pos (by simp [← found, lookup])]
      rfl

/-- Symbols of different names differ, so it makes no difference whether names or symbols are
listed once. -/
theorem implicit_tokens_once {names : List String} {tokens : List Symbol}
    (asked : (names.mapM fun name => require ((declarations.scope variant precedences).token? name)
      (.rejected (.unknownImplicitToken name))) = .ok tokens) :
    (∀ token ∈ tokens, token ∈ numberedSymbols .terminal declarations.tokenNames) ∧
      distinct names = tokens.eraseDups.map (·.name) := by
  have listed : ∀ token ∈ tokens,
      token ∈ numberedSymbols .terminal declarations.tokenNames := by
    intro token member
    obtain ⟨_, _, found⟩ := except_map_m_mem asked token member
    exact Scope.token_mem (require_eq_ok_iff.1 found)
  have told : tokens.map (·.name) = names := by
    apply except_map_m_restored _ asked
    intro name token found
    simpa using List.find?_some (require_eq_ok_iff.1 found)
  refine ⟨listed, ?_⟩
  rw [← told]
  apply erase_dups_map
  intro left leftMember right rightMember same
  exact List.inj_on_of_nodup_map token_symbol_names_nodup (listed left leftMember)
    (listed right rightMember) same

theorem implicit_clauses_by_name :
    declarations.implicitTokenNames variant >>=
        (declarations.dictionary variant precedences).implicitClauses =
      (declarations.implicitTokenSymbols variant
        (declarations.scope variant precedences)).map
          (implicitClauses (declarations.implicitRule? variant)) := by
  unfold implicitTokenNames implicitTokenSymbols
  cases declarations.implicitTokens with
  | none => exact implicit_clauses_of_tokens _ precedences [] (by simp)
  | some names =>
      cases variant with
      | plain => rfl
      | eco =>
          simp only
          rw [implicit_token_checked .eco precedences]
          cases asked : names.mapM fun name =>
              require ((declarations.scope .eco precedences).token? name)
                (.rejected (.unknownImplicitToken name)) with
          | error fault => rfl
          | ok tokens =>
              obtain ⟨listed, once⟩ := implicit_tokens_once _ _ asked
              change (declarations.dictionary .eco precedences).implicitClauses
                (distinct names) = _
              rw [once]
              apply implicit_clauses_of_tokens
              intro token member
              exact listed token (List.mem_eraseDups.1 member)

variable (apart : declarations.ruleNames.Nodup)

include apart

theorem rule_by_name (name : String) :
    (declarations.dictionary variant precedences).rules.find? name =
      (declarations.scope variant precedences).rule? name := by
  apply find_by_name
  rw [rule_symbol_names]
  exact apart

theorem resolve_by_name (user : String) (reference : Reference) :
    (declarations.dictionary variant precedences).resolve user reference =
      (declarations.scope variant precedences).resolve user reference := by
  cases reference with
  | rule name =>
      have fetched := (declarations.dictionary variant precedences).rules.fetch_if_contains name
        (.rejected (.unknownRule user name)) fun symbol => .ok [symbol]
      rw [rule_by_name _ _ apart] at fetched
      exact fetched
  | token name =>
      have fetched := (declarations.dictionary variant precedences).tokens.fetch_if_contains name
        (.rejected (.unknownToken user name)) fun symbol =>
          .ok (symbol :: (declarations.implicitRule? variant).toList)
      rw [token_by_name] at fetched
      exact fetched
  | stray text => rfl

omit apart in
theorem zipped_names {pair : RuleDeclaration × Symbol}
    (paired : pair ∈ declarations.rules.zip declarations.ruleSymbols) :
    pair.2 ∈ declarations.ruleSymbols ∧ pair.2.name = pair.1.name := by
  obtain ⟨place, inside, rfl⟩ := List.mem_iff_getElem.1 paired
  rw [List.getElem_zip]
  exact ⟨List.getElem_mem _, by simp [ruleSymbols, numberedSymbols, ruleNames]⟩

theorem clauses_of_rule {pair : RuleDeclaration × Symbol}
    (paired : pair ∈ declarations.rules.zip declarations.ruleSymbols) :
    (declarations.dictionary variant precedences).clausesOf pair.1 =
      (pair.1.alternatives.map fun alternative => (pair.2, alternative)).mapM
        fun (lhs, alternative) =>
          (declarations.scope variant precedences).clause lhs alternative := by
  obtain ⟨member, named⟩ := zipped_names paired
  have head : (declarations.dictionary variant precedences).rules.fetch pair.1.name =
      .ok pair.2 := by
    rw [← named]
    apply fetch_by_name _ member
    rw [rule_symbol_names]
    exact apart
  have resolve := funext (resolve_by_name variant precedences apart pair.1.name)
  unfold Dictionary.clausesOf
  rw [head, List.mapM_map, resolve, ← named]
  rfl

theorem clauses_by_name :
    (declarations.rules.mapM (declarations.dictionary variant precedences).clausesOf).map
        List.flatten =
      declarations.clauses (declarations.scope variant precedences) := by
  have each : ∀ pair ∈ declarations.rules.zip declarations.ruleSymbols, _ :=
    fun pair paired => clauses_of_rule variant precedences apart paired
  unfold clauses
  rw [except_map_m_flat_map]
  conv_lhs => rw [← zipped_rules, List.mapM_map]
  exact congrArg (Except.map List.flatten) (except_map_m_congr each)

end Stages

theorem assemble_of_well_formed {grammar : Grammar} (whole : grammar.WellFormed) :
    Grammar.assemble grammar.terminals grammar.nonterminals grammar.productions grammar.start
        grammar.precedences grammar.errorTexts =
      .ok { grammar with variant := .plain, implicitRule := none } := by
  have eof : grammar.terminals.getLast? = some grammar.eof := by simp [Grammar.terminals]
  have last : grammar.productions.getLast? = some grammar.startProduction := by
    simp [Grammar.productions]
  have headed : grammar.productions.all fun production =>
      (slot? grammar.nonterminals.length production.lhs.index).isSome := by
    rw [List.all_eq_true]
    intro production member
    obtain ⟨place, _, named⟩ := whole.rule_slot (whole.heads_known production member)
    unfold Grammar.ruleSlot? at named
    simp [named]
  unfold Grammar.assemble
  rw [eof, last]
  change (if _ then _ else _) = _
  rw [if_pos headed]
  simp [Grammar.terminals, Grammar.productions]
  rfl

theorem implicit_rule_by_place (start : Symbol) :
    declarations.implicitRuleByPlace variant start.name =
      .ok (declarations.implicitRule? variant) := by
  unfold implicitRuleByPlace
  rw [nonterminal_table]
  by_cases implicit : declarations.hasImplicitRule variant
  · rw [if_pos implicit]
    cases there : declarations.implicitRule? variant with
    | none => simp [implicitRule?, implicit] at there
    | some symbol =>
        have second := item_from_end declarations.ruleSymbols
          [declarations.augmentedStart start (some symbol)] symbol
        rw [List.append_assoc]
        change require (item? (declarations.ruleSymbols ++ [symbol, _]) (-2)) _ >>= _ = _
        rw [show (-2 : Int) = -(([declarations.augmentedStart start (some symbol)].length : Int) + 1)
          from rfl, second]
        rfl
  · rw [if_neg implicit, implicitRule?, if_neg implicit]
    rfl

theorem open_dictionary (start : Symbol) (precedences : Register String Precedence) :
    declarations.openDictionary variant start.name (declarations.implicitRule? variant)
        precedences =
      declarations.dictionary variant precedences := by
  have size : declarations.ruleNames.length = declarations.ruleSymbols.length := by
    simp [ruleNames]
  unfold openDictionary dictionary
  rw [nonterminal_table, terminal_table, List.append_assoc, size, List.take_left,
    List.dropLast_concat]

theorem assemble_by_lookup {parts : Parts} (accepted : declarations.Accepted variant parts) :
    declarations.assembleByLookup variant parts.start.name
        (declarations.dictionary variant parts.precedences)
        (declarations.leadingClauses variant parts) parts.errorTexts =
      .ok (declarations.grammarOf variant parts) := by
  have start : (declarations.dictionary variant parts.precedences).rules.fetch parts.start.name =
      .ok parts.start := by
    apply fetch_by_name _ accepted.start_known
    rw [rule_symbol_names]
    exact accepted.rule_names_nodup
  have augmented : item? (declarations.ruleSymbols ++
      (declarations.implicitRule? variant).toList ++
        [declarations.augmentedSymbol variant parts]) (-1) =
          some (declarations.augmentedSymbol variant parts) := item_from_end _ [] _
  have eof : item? (numberedSymbols .terminal declarations.tokenNames ++
      [declarations.eofSymbol]) (-1) = some declarations.eofSymbol := item_from_end _ [] _
  have productions : numberedProductions (declarations.leadingClauses variant parts ++
      [⟨declarations.augmentedSymbol variant parts, (declarations.implicitRule? variant).toList ++
        [parts.start, declarations.eofSymbol], none⟩]) =
          (declarations.grammarOf variant parts).productions := by
    simp [numberedProductions, List.zipIdx_append, grammarOf, Grammar.productions]
  have assembled := assemble_of_well_formed accepted.well_formed
  rw [← productions] at assembled
  unfold assembleByLookup
  rw [nonterminal_table, terminal_table, start]
  change (require (item? (_ ++ _ ++ [declarations.augmentedSymbol variant parts]) (-1)) _ >>=
    _) = _
  rw [augmented, eof]
  change (Grammar.assemble _ _ _ _ _ _ >>= fun _ => _) = _
  exact except_bind_eq_ok_iff.2 ⟨_, assembled, rfl⟩

theorem build_by_lookup (declarations : Declarations) (variant : Variant) :
    declarations.buildByLookup variant = declarations.build variant := by
  unfold buildByLookup
  apply except_bind_congr
  intro _ checked
  obtain ⟨given, apart⟩ := check_rules_accepts.answered_iff.1 ⟨_, checked⟩
  rw [start_name_of_symbol given, except_bind_map]
  apply except_bind_congr
  intro start started
  apply except_bind_congr
  intro _ tokens
  apply except_bind_congr
  intro precedences ranked
  rw [implicit_rule_by_place]
  change (declarations.rules.mapM
    (declarations.openDictionary variant start.name _ precedences).clausesOf >>= fun _ => _) = _
  rw [open_dictionary]
  change (declarations.rules.mapM (declarations.dictionary variant precedences).clausesOf >>=
    fun _ => _) = declarations.clauses (declarations.scope variant precedences) >>= _
  have by_rule := clauses_by_name variant precedences apart
  rw [← by_rule, except_bind_map]
  apply except_bind_congr
  intro clauses made
  change (declarations.errorTexts.entries.mapM
    (declarations.dictionary variant precedences).errorText >>= fun _ => _) =
      declarations.numberedErrorTexts (declarations.scope variant precedences) >>= _
  rw [← error_texts_by_name, except_bind_map]
  apply except_bind_congr
  intro errorTexts numbered
  change _ = declarations.implicitTokenSymbols variant
    (declarations.scope variant precedences) >>= _
  rw [← bind_assoc, implicit_clauses_by_name, except_bind_map]
  apply except_bind_congr
  intro implicitTokens listed
  rw [made] at by_rule
  have by_text : _ = declarations.numberedErrorTexts (declarations.scope variant precedences) :=
    error_texts_by_name variant precedences
  rw [numbered] at by_text
  let parts : Parts :=
    ⟨start, precedences, clauses.flatten, Register.ofPairs errorTexts, implicitTokens⟩
  have accepted : declarations.Accepted variant parts :=
    ⟨checked, started, tokens, ranked, by_rule.symm, by_text.symm, listed⟩
  exact assemble_by_lookup accepted

/-- Construction accepts exactly the valid declarations. What else it can do is to reject the
declarations: none of the look-ups by name or by place that it is made of ever misses. -/
theorem built_exactly_if_valid (declarations : Declarations) (variant : Variant)
    (named : declarations.NamesOnly) :
    ((∃ grammar, declarations.build variant = .ok grammar) ↔ declarations.Valid variant) ∧
      (¬declarations.Valid variant →
        ∃ error, declarations.build variant = .error (.rejected error)) ∧
      declarations.buildByLookup variant = declarations.build variant := by
  have accepts : AcceptsIff (declarations.build variant) _ := build_accepts named
  exact ⟨accepts.answered_iff, accepts.rejected, build_by_lookup declarations variant⟩

/-- Blanks may stand anywhere in these texts, which only one of the dialects allows. -/
def spaced : Declarations where
  rules := [⟨"S", [⟨[.token "a", .rule "S"], none⟩, ⟨[.token "b"], some "a"⟩]⟩]
  tokens := ["b", "blank"]
  precedenceLines := [⟨.left, ["a"]⟩]
  starts := ["S", "S"]
  implicitTokens := some ["blank", "blank"]
  errorTexts := Register.ofPairs [("a", "letter")]

theorem spaced_built_in_one_dialect :
    spaced.NamesOnly ∧
      (∃ grammar, spaced.build .eco = .ok grammar) ∧
      (∃ error, spaced.build .plain = .error (.rejected error)) ∧
      spaced.buildByLookup .eco = spaced.build .eco := by
  have named : spaced.NamesOnly := by decide
  have inside := built_exactly_if_valid spaced .eco named
  have outside := built_exactly_if_valid spaced .plain named
  have valid : spaced.Valid .eco := by decide
  have refused : ¬spaced.Valid .plain := by decide
  exact ⟨named, inside.1.2 valid, outside.2.1 refused, inside.2.2⟩

end Declarations

end GrammarKit
