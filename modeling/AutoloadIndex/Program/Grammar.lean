import AutoloadIndex.Program.Token

set_option autoImplicit false

/-!
The grammar of PHP as a predictive machine. A rule is replaced by the parts of one of its forms,
chosen by at most three tokens ahead; the other parts consume one token each. Only what is well
formed is decided here: operator precedence does not matter for that and is not kept.
-/

namespace AutoloadIndex.Program

/-- The nonterminals of the grammar. -/
inductive Rule where
  | statement
  /-- Statements up to a closing brace. -/
  | blockBody
  /-- Statements up to one of some words, and in a `switch` also up to a closing brace. -/
  | statementsUntil (words : List String)
  | block
  /-- A semicolon, or a close tag with an open tag right behind it. -/
  | terminator | optionalTerminator
  /-- Items with commas between them, up to one of some marks. There may be none, and a comma may
  stand behind the last one. -/
  | series (item : Rule) (marks : List String) | seriesMore (item : Rule) (marks : List String)
  | attributes | attributeGroups | attributeItem | attributed
  | namespaceTail | namespaceBody | implicitBody
  | useItems | useSequence | useMore | useItem | useTypedItem | optionalAlias
  | modifiers
  | classDeclaration | interfaceDeclaration | traitDeclaration | enumDeclaration
  | extendsClause | implementsClause | names | namesMore | name
  | function | closure | arrowFunction | anonymousFunction
  | constants | constant
  | paren
  | ifBody | elseTail | elseBranches
  | loopBody (closing : String)
  | catches | catchEnd
  | switchBody | cases | caseMark
  | directive | declareBody
  | staticVariable
  | expr | exprTail | operand | primary | suffix | newTarget | targetSuffix
  | optionalExpr | optionalUntil (marks : List String)
  | arguments | optionalArguments | argument
  /-- Arguments of a call, some of which may be left open. -/
  | openArguments | openArgument
  | element | pair
  | anyVariable | selector
  | template | templateIndex | anonymousClass
  | arm
  | params | param
  | optionalType | typeExpr | typeAtom | typeMore
  | reference | spread | default | optionalHooks | returnType
  | closureUse | closureVariable
  | members | memberList | member | attributedMember | modifiedMember
  | traitUseEnd | adaptations | adaptation | adaptedMember | adaptedName | optionalName
  | constantType | memberConstants | memberConstantsMore
  | methodBody | property | propertyType | propertyEnd | propertiesMore
  | hooks | hookList | hook | hookBody | optionalParams
deriving DecidableEq, Repr

/-- A part of a form: a rule, or what one token must be. -/
inductive Part where
  | rule (rule : Rule)
  | mark (text : String)
  | word (text : String)
  /-- A plain name, reserved words included; any such name may be declared. -/
  | plainName
  /-- A name of any form. -/
  | name
  | varName
  | any
deriving DecidableEq, Repr

def Part.accepts (part : Part) (token : Token) : Bool :=
  match part with
  | rule _ => false
  | mark text => token == .mark text
  | word text => token.word == text
  | plainName => token.isPlain
  | name => token.isName
  | varName => token == .varName
  | any => true

/-- Whether a list ends at the token; a close tag counts as a semicolon. -/
def endsSeries (marks : List String) (token : Token) : Bool :=
  marks.contains token.symbol || (token == .closeTag && marks.contains ";")

def prefixMarks : List String := ["!", "~", "+", "-", "@", "++", "--", "&"]

def binaryMarks : List String := [
  "+", "-", "*", "/", "%", "**", ".", "<<", ">>", "|", "&", "^", "&&", "||", "??", "==", "!=",
  "===", "!==", "<>", "<", "<=", ">", ">=", "<=>", "|>", "=", "+=", "-=", "*=", "/=", ".=", "%=",
  "**=", "<<=", ">>=", "|=", "&=", "^=", "??="]

def binaryWords : List String := ["instanceof", "and", "or", "xor"]

def wordOperators : List String := [
  "print", "throw", "include", "include_once", "require", "require_once"]

/-- Whether a modifier in front of this token starts an expression and not a class. -/
def continuesExpression (next : Token) : Bool :=
  ["::", "(", "->", "?->", "["].contains next.symbol || ["fn", "function"].contains next.word

def startsClosure (second third : Token) : Bool :=
  second.symbol == "(" || (second.symbol == "&" && third.symbol == "(")

namespace Rule

def wordStatement (word : String) (second third : Token) : List Part :=
  match word with
  | "namespace" => [.any, .rule .namespaceTail]
  | "use" => [.any, .rule .useItems, .rule .terminator]
  | "class" => [.rule .classDeclaration]
  | "interface" => [.rule .interfaceDeclaration]
  | "trait" => [.rule .traitDeclaration]
  | "enum" => [.rule .enumDeclaration]
  | "function" =>
    if startsClosure second third then [.rule .closure, .rule .terminator] else [.rule .function]
  | "const" => [.rule .constants]
  | "if" => [.any, .rule .paren, .rule .ifBody]
  | "while" => [.any, .rule .paren, .rule (.loopBody "endwhile")]
  | "for" =>
    [.any, .mark "(", .rule (.series .expr [";"]), .mark ";", .rule (.series .expr [";"]),
      .mark ";", .rule (.series .expr [")"]), .mark ")", .rule (.loopBody "endfor")]
  | "foreach" =>
    [.any, .mark "(", .rule .expr, .word "as", .rule .expr, .rule .pair, .mark ")",
      .rule (.loopBody "endforeach")]
  | "do" => [.any, .rule .statement, .word "while", .rule .paren, .rule .terminator]
  | "switch" => [.any, .rule .paren, .rule .switchBody]
  | "try" => [.any, .rule .block, .rule .catches]
  | "declare" =>
    [.any, .mark "(", .rule (.series .directive [")"]), .mark ")", .rule .declareBody]
  | "goto" => [.any, .plainName, .rule .terminator]
  | "echo" => [.any, .rule (.series .expr [";"]), .rule .terminator]
  | "return" | "break" | "continue" => [.any, .rule .optionalExpr, .rule .terminator]
  | "global" => [.any, .rule (.series .anyVariable [";"]), .rule .terminator]
  | "unset" =>
    [.any, .mark "(", .rule (.series .expr [")"]), .mark ")", .rule .terminator]
  | "__halt_compiler" => [.any, .mark "(", .mark ")", .rule .terminator]
  | _ =>
    if word == "static" && second == .varName then
      [.any, .rule (.series .staticVariable [";"]), .rule .terminator]
    else if Program.modifiers.contains word && !continuesExpression second then
      [.rule .classDeclaration]
    else if second.symbol == ":" then [.any, .any]
    else [.rule .expr, .rule .terminator]

def attributedStatement (word : String) (second third : Token) : Option (List Part) :=
  match word with
  | "class" | "interface" | "trait" | "enum" | "function" | "const" =>
    some (wordStatement word second third)
  | "fn" => some [.rule .arrowFunction, .rule .terminator]
  | _ =>
    if word == "static" && ["fn", "function"].contains second.word then
      some [.rule .anonymousFunction, .rule .terminator]
    else if Program.modifiers.contains word then some [.rule .classDeclaration]
    else none

/-- Parts of an expression that starts with a word; none if no expression starts with it. -/
def wordPrimary (word : String) (second : Token) : Option (List Part) :=
  if wordOperators.contains word then some [.any, .rule .expr]
  else match word with
    | "new" =>
      if second.word == "class" || second.symbol == "#[" ||
          (Program.modifiers.contains second.word && second.word != "static") then
        some [.any, .rule .anonymousClass]
      else some [.any, .rule .newTarget, .rule .optionalArguments]
    | "clone" =>
      some (if second.symbol == "(" then [.any, .rule .arguments] else [.any, .rule .operand])
    | "yield" =>
      if second.endsStatement then some [.any]
      else if second.word == "from" then some [.any, .any, .rule .expr]
      else some [.any, .rule .expr, .rule .pair]
    | "isset" => some [.any, .mark "(", .rule (.series .expr [")"]), .mark ")"]
    | "empty" | "eval" => some [.any, .rule .paren]
    | "exit" | "die" => some [.any, .rule .optionalArguments]
    | "list" | "array" =>
      if second.symbol == "(" then
        some [.any, .any, .rule (.series .element [")"]), .mark ")"]
      else if word == "list" then some [.any] else none
    | "function" => some [.rule .closure]
    | "fn" => some [.rule .arrowFunction]
    | "static" =>
      some (if ["fn", "function"].contains second.word then [.rule .anonymousFunction]
        else [.any])
    | "match" =>
      some (if second.symbol == "(" then
          [.any, .rule .paren, .mark "\x7b", .rule (.series .arm ["\x7d"]), .mark "\x7d"]
        else [.any])
    | _ => if reservedWords.contains word then none else some [.any]

def markPrimary (text : String) : Option (List Part) :=
  if prefixMarks.contains text then some [.any, .rule .operand]
  else match text with
    | "(" => some [.rule .paren]
    | "[" => some [.any, .rule (.series .element ["]"]), .mark "]"]
    | "$" | "$\x7b" => some [.rule .anyVariable]
    | "#[" => some [.rule .attributes, .rule .anonymousFunction]
    | _ => none

def memberForm (word : String) : List Part :=
  match word with
  | "const" => [.any, .rule .constantType, .rule .memberConstants, .rule .terminator]
  | "function" =>
    [.any, .rule .reference, .plainName, .rule .params, .rule .returnType, .rule .methodBody]
  | "var" => [.any, .rule .property]
  | _ => [.rule .property]

/-- The form of a rule in front of the given tokens; the end of the file counts as inline HTML, and
`atEnd` tells that it is reached. None if no form fits. -/
def form (rule : Rule) (first second third : Token) (atEnd : Bool) : Option (List Part) :=
  let mark := first.symbol
  let word := first.word
  let onMark (text : String) (parts : List Part) : Option (List Part) :=
    some (if mark == text then parts else [])
  let onWord (text : String) (parts : List Part) : Option (List Part) :=
    some (if word == text then parts else [])
  match rule with
  | statement =>
    if atEnd then none
    else match first with
      | .html | .openTag | .closeTag => some [.any]
      | .openEcho => some [.any, .rule (.series .expr [";"]), .rule .terminator]
      | .name .plain _ => some (wordStatement word second third)
      | .mark ";" => some [.any]
      | .mark "\x7b" => some [.rule .block]
      | .mark "#[" => some [.rule .attributes, .rule .attributed]
      | _ => some [.rule .expr, .rule .terminator]
  | blockBody =>
    if mark == "\x7d" then some []
    else if atEnd then none
    else some [.rule .statement, .rule .blockBody]
  | statementsUntil words =>
    if words.contains word || (mark == "\x7d" && words.contains "case") then some []
    else if atEnd then none
    else some [.rule .statement, .rule (.statementsUntil words)]
  | block => some [.mark "\x7b", .rule .blockBody, .mark "\x7d"]
  | terminator =>
    if first == .closeTag then some (if second == .openTag then [.any, .any] else [.any])
    else some [.mark ";"]
  | optionalTerminator => some (if first.endsStatement then [.rule .terminator] else [])
  | series item marks =>
    some (if endsSeries marks first then [] else [.rule item, .rule (.seriesMore item marks)])
  | seriesMore item marks => onMark "," [.any, .rule (.series item marks)]
  | attributes =>
    some [.mark "#[", .rule (.series .attributeItem ["]"]), .mark "]", .rule .attributeGroups]
  | attributeGroups => onMark "#[" [.rule .attributes]
  | attributeItem => some [.name, .rule .optionalArguments]
  | attributed => attributedStatement word second third
  | namespaceTail =>
    some (if first.isName then [.any, .rule .namespaceBody] else [.rule .namespaceBody])
  | namespaceBody =>
    some (if mark == "\x7b" then [.rule .block] else [.rule .terminator, .rule .implicitBody])
  | implicitBody =>
    some (if atEnd || word == "namespace" then [] else [.rule .statement, .rule .implicitBody])
  | useItems =>
    let group (item : Rule) : List Part :=
      [.name, .any, .mark "\x7b", .rule (.series item ["\x7d"]), .mark "\x7d"]
    if word == "function" || word == "const" then
      some (.any :: if third.symbol == "\\" then group .useItem else [.rule .useSequence])
    else some (if second.symbol == "\\" then group .useTypedItem else [.rule .useSequence])
  | useSequence => some [.rule .useItem, .rule .useMore]
  | useMore => onMark "," [.any, .rule .useSequence]
  | useItem => some [.name, .rule .optionalAlias]
  | useTypedItem =>
    some (if word == "function" || word == "const" then [.any, .rule .useItem]
      else [.rule .useItem])
  | optionalAlias => onWord "as" [.any, .plainName]
  | modifiers => some (if Program.modifiers.contains word then [.any, .rule .modifiers] else [])
  | classDeclaration =>
    some [.rule .modifiers, .word "class", .plainName, .rule .extendsClause,
      .rule .implementsClause, .rule .members]
  | interfaceDeclaration =>
    some [.word "interface", .plainName, .rule .extendsClause, .rule .members]
  | traitDeclaration => some [.word "trait", .plainName, .rule .members]
  | enumDeclaration =>
    some [.word "enum", .plainName, .rule .returnType, .rule .implementsClause, .rule .members]
  | extendsClause => onWord "extends" [.any, .rule .names]
  | implementsClause => onWord "implements" [.any, .rule .names]
  | names => some [.name, .rule .namesMore]
  | namesMore => onMark "," [.any, .rule .names]
  | name => some [.name]
  | function =>
    some [.word "function", .rule .reference, .plainName, .rule .params, .rule .returnType,
      .rule .block]
  | closure =>
    some [.word "function", .rule .reference, .rule .params, .rule .closureUse, .rule .returnType,
      .rule .block]
  | arrowFunction =>
    some [.word "fn", .rule .reference, .rule .params, .rule .returnType, .mark "=>", .rule .expr]
  | anonymousFunction =>
    let (lead, kind) : List Part × String :=
      if word == "static" then ([.any], second.word) else ([], word)
    match kind with
    | "fn" => some (lead ++ [.rule .arrowFunction])
    | "function" => some (lead ++ [.rule .closure])
    | _ => none
  | constants => some [.word "const", .rule (.series .constant [";"]), .rule .terminator]
  | constant => some [.plainName, .mark "=", .rule .expr]
  | paren => some [.mark "(", .rule .expr, .mark ")"]
  | ifBody =>
    if mark == ":" then
      some [.any, .rule (.statementsUntil ["elseif", "else", "endif"]), .rule .elseBranches]
    else some [.rule .statement, .rule .elseTail]
  | elseTail =>
    match word with
    | "elseif" => some [.any, .rule .paren, .rule .statement, .rule .elseTail]
    | "else" => some [.any, .rule .statement]
    | _ => some []
  | elseBranches =>
    match word with
    | "elseif" =>
      some [.any, .rule .paren, .mark ":", .rule (.statementsUntil ["elseif", "else", "endif"]),
        .rule .elseBranches]
    | "else" =>
      some [.any, .mark ":", .rule (.statementsUntil ["endif"]), .word "endif",
        .rule .terminator]
    | _ => some [.word "endif", .rule .terminator]
  | loopBody closing =>
    if mark == ":" then
      some [.any, .rule (.statementsUntil [closing]), .word closing, .rule .terminator]
    else some [.rule .statement]
  | catches =>
    match word with
    | "catch" =>
      some [.any, .mark "(", .rule .typeExpr, .rule .catchEnd, .rule .block, .rule .catches]
    | "finally" => some [.any, .rule .block]
    | _ => some []
  | catchEnd => some (if first == .varName then [.any, .mark ")"] else [.mark ")"])
  | switchBody =>
    if mark == ":" then
      some [.any, .rule .optionalTerminator, .rule .cases, .word "endswitch", .rule .terminator]
    else some [.mark "\x7b", .rule .optionalTerminator, .rule .cases, .mark "\x7d"]
  | cases =>
    let body : Part := .rule (.statementsUntil ["case", "default", "endswitch"])
    match word with
    | "case" => some [.any, .rule .expr, .rule .caseMark, body, .rule .cases]
    | "default" => some [.any, .rule .caseMark, body, .rule .cases]
    | _ => some []
  | caseMark => some (if mark == ":" then [.any] else [.mark ";"])
  | directive => some [.plainName, .mark "=", .rule .expr]
  | declareBody => some [.rule (.loopBody "enddeclare")]
  | staticVariable => some [.varName, .rule .default]
  | expr => some [.rule .operand, .rule .exprTail]
  | exprTail =>
    if binaryMarks.contains mark || binaryWords.contains word then some [.any, .rule .expr]
    else if mark == "?" then
      if second.symbol == ":" then some [.any, .any, .rule .expr]
      else some [.any, .rule .expr, .mark ":", .rule .expr]
    else some []
  | operand => some [.rule .primary, .rule .suffix]
  | primary =>
    if atEnd then none
    else match first with
      | .varName | .number | .literal _ => some [.any]
      | .name .plain _ => wordPrimary word second
      | .name _ _ => some [.any]
      | .cast => some [.any, .rule .operand]
      | .templateOpen => some [.any, .rule .template]
      | .mark text => markPrimary text
      | _ => none
  | suffix =>
    match mark with
    | "[" => some [.any, .rule (.optionalUntil ["]"]), .mark "]", .rule .suffix]
    | "->" | "?->" | "::" => some [.any, .rule .selector, .rule .suffix]
    | "(" => some [.rule .openArguments, .rule .suffix]
    | "++" | "--" => some [.any, .rule .suffix]
    | _ => some []
  | newTarget => some [.rule .primary, .rule .targetSuffix]
  | targetSuffix =>
    match mark with
    | "[" => some [.any, .rule (.optionalUntil ["]"]), .mark "]", .rule .targetSuffix]
    | "->" | "?->" | "::" => some [.any, .rule .selector, .rule .targetSuffix]
    | _ => some []
  | optionalExpr => some (if first.endsStatement then [] else [.rule .expr])
  | optionalUntil marks => some (if marks.contains mark then [] else [.rule .expr])
  | arguments => some [.mark "(", .rule (.series .argument [")"]), .mark ")"]
  | optionalArguments => onMark "(" [.rule .arguments]
  | argument =>
    if mark == "..." then some [.any, .rule .expr]
    else if first.isPlain && second.symbol == ":" then some [.any, .any, .rule .expr]
    else some [.rule .expr]
  | openArguments => some [.mark "(", .rule (.series .openArgument [")"]), .mark ")"]
  | openArgument =>
    if mark == "?" || (mark == "..." && [")", ","].contains second.symbol) then some [.any]
    else if first.isPlain && second.symbol == ":" && third.symbol == "?" then
      some [.any, .any, .any]
    else some [.rule .argument]
  | element =>
    match mark with
    | "," => some []
    | "..." => some [.any, .rule .expr]
    | _ => some [.rule .expr, .rule .pair]
  | pair => onMark "=>" [.any, .rule .expr]
  | anyVariable =>
    match mark with
    | "$" => some [.any, .rule .anyVariable]
    | "$\x7b" => some [.any, .rule .expr, .mark "\x7d"]
    | _ => some [.varName]
  | selector =>
    if first.isPlain then some [.any]
    else if mark == "\x7b" then some [.any, .rule .expr, .mark "\x7d"]
    else some [.rule .anyVariable]
  | template =>
    match first with
    | .templateText => some [.any, .rule .template]
    | .templateClose => some [.any]
    | .mark "\x7b" => some [.any, .rule .expr, .mark "\x7d", .rule .template]
    | .varName =>
      some (if second.symbol == "[" then
          [.any, .any, .rule .templateIndex, .mark "]", .rule .template]
        else [.rule .expr, .rule .template])
    | _ => some [.rule .expr, .rule .template]
  | templateIndex =>
    some (if first.isPlain && second.symbol == "]" then [.any]
      else [.rule (.optionalUntil ["]"])])
  | anonymousClass =>
    some [.rule .attributeGroups, .rule .modifiers, .word "class", .rule .optionalArguments,
      .rule .extendsClause, .rule .implementsClause, .rule .members]
  | arm =>
    if word == "default" then some [.any, .mark "=>", .rule .expr]
    else some [.rule (.series .expr ["=>"]), .mark "=>", .rule .expr]
  | params => some [.mark "(", .rule (.series .param [")"]), .mark ")"]
  | param =>
    some [.rule .attributeGroups, .rule .modifiers, .rule .optionalType, .rule .reference,
      .rule .spread, .varName, .rule .default, .rule .optionalHooks]
  | optionalType =>
    some (if mark == "&" || mark == "..." || first == .varName then [] else [.rule .typeExpr])
  | typeExpr => some [.rule .typeAtom, .rule .typeMore]
  | typeAtom =>
    if mark == "?" then some [.any, .rule .typeExpr]
    else if mark == "(" then some [.any, .rule .typeExpr, .mark ")"]
    else if first.isPlain && !namesType word then none
    else some [.name]
  | typeMore =>
    if mark == "|" then some [.any, .rule .typeExpr]
    else if mark == "&" && second != .varName && second.symbol != "..." && second.symbol != "&" then
      some [.any, .rule .typeExpr]
    else some []
  | reference => onMark "&" [.any]
  | spread => onMark "..." [.any]
  | default => onMark "=" [.any, .rule .expr]
  | optionalHooks => onMark "\x7b" [.rule .hooks]
  | returnType => onMark ":" [.any, .rule .typeExpr]
  | closureUse =>
    onWord "use" [.any, .mark "(", .rule (.series .closureVariable [")"]), .mark ")"]
  | closureVariable => some [.rule .reference, .varName]
  | members => some [.mark "\x7b", .rule .memberList]
  | memberList => some (if mark == "\x7d" then [.any] else [.rule .member, .rule .memberList])
  | member =>
    if atEnd then none
    else if word == "use" then
      some [.any, .rule (.series .name ["\x7b", ";"]), .rule .traitUseEnd]
    else some [.rule .attributeGroups, .rule .attributedMember]
  | attributedMember =>
    if word == "case" then some [.any, .plainName, .rule .default, .rule .terminator]
    else some [.rule .modifiers, .rule .modifiedMember]
  | modifiedMember => some (memberForm word)
  | traitUseEnd =>
    some (if mark == "\x7b" then [.any, .rule .adaptations] else [.rule .terminator])
  | adaptations =>
    some (if mark == "\x7d" then [.any]
      else [.rule .adaptation, .rule .terminator, .rule .adaptations])
  | adaptation =>
    if second.symbol == "::" then some [.name, .any, .plainName, .rule .adaptedMember]
    else some [.plainName, .word "as", .rule .adaptedName]
  | adaptedMember =>
    if word == "insteadof" then some [.any, .rule (.series .name [";"])]
    else some [.word "as", .rule .adaptedName]
  | adaptedName =>
    if visibilities.contains word then some [.any, .rule .optionalName]
    else some [.rule .optionalName]
  | optionalName => some (if first.endsStatement then [] else [.plainName])
  | constantType => some (if second.symbol == "=" then [] else [.rule .typeExpr])
  | memberConstants => some [.rule .constant, .rule .memberConstantsMore]
  | memberConstantsMore => onMark "," [.any, .rule .memberConstants]
  | methodBody => some (if mark == "\x7b" then [.rule .block] else [.mark ";"])
  | property => some [.rule .propertyType, .varName, .rule .default, .rule .propertyEnd]
  | propertyType => some (if first == .varName then [] else [.rule .typeExpr])
  | propertyEnd =>
    some (if mark == "\x7b" then [.rule .hooks] else [.rule .propertiesMore, .rule .terminator])
  | propertiesMore => onMark "," [.any, .varName, .rule .default, .rule .propertiesMore]
  | hooks => some [.mark "\x7b", .rule .hookList]
  | hookList => some (if mark == "\x7d" then [.any] else [.rule .hook, .rule .hookList])
  | hook =>
    some [.rule .attributeGroups, .rule .modifiers, .rule .reference, .plainName,
      .rule .optionalParams, .rule .hookBody]
  | optionalParams => onMark "(" [.rule .params]
  | hookBody =>
    match mark with
    | "=>" => some [.any, .rule .expr, .mark ";"]
    | "\x7b" => some [.rule .block]
    | _ => some [.mark ";"]

def formAt (rule : Rule) (lexemes : List Lexeme) : Option (List Part) :=
  let token (n : Nat) : Token := (lexemes[n]?.map Lexeme.token).getD .html
  rule.form (token 0) (token 1) (token 2) lexemes.isEmpty

end Rule

/-- Runs the machine on a stack of parts. The result is the end of the last token consumed and what
is left; the first argument bounds the number of steps. -/
def run : Nat → List Part → Nat → List Lexeme → Option (Nat × List Lexeme)
  | _, [], stop, lexemes => some (stop, lexemes)
  | 0, _ :: _, _, _ => none
  | steps + 1, .rule rule :: parts, stop, lexemes =>
    match rule.formAt lexemes with
    | some form => run steps (form ++ parts) stop lexemes
    | none => none
  | _ + 1, _ :: _, _, [] => none
  | steps + 1, part :: parts, _, lexeme :: rest =>
    if part.accepts lexeme.token then run steps parts lexeme.stop rest else none

/-- Steps that are enough for any input: between two tokens every rule is entered a few times. -/
def stepBound (lexemes : List Lexeme) : Nat := 256 * (lexemes.length + 1)

def consume (steps : Nat) (rule : Rule) (lexemes : List Lexeme) : Option (Nat × List Lexeme) :=
  run steps [.rule rule] 0 lexemes

end AutoloadIndex.Program
