import AutoloadIndex.Dialect.Element
import AutoloadIndex.Dialect.Header
import AutoloadIndex.Lexeme.Lexer
import AutoloadIndex.Lexeme.Statement
import AutoloadIndex.Nesting

set_option autoImplicit false

/-!
Lowering of Hack to PHP. Open tags and element names are replaced first; then type aliases, the
generic parameters of declarations and the bodies of Hack enums are blanked out. Blanking works on
whole lexemes and keeps every offset, so an alias can be placed in a namespace by its offset.
-/

namespace AutoloadIndex.Dialect

open Lexeme (ahead nameAhead punctAhead)

/-- A type alias taken out of the source, by its short name and the offset of its declaration. -/
structure TypeAlias where
  name : List Char
  offset : Nat
deriving DecidableEq, Repr

structure Span where
  start : Nat
  stop : Nat
deriving DecidableEq, Repr

structure Removal where
  blanks : List Span := []
  aliases : List TypeAlias := []
deriving DecidableEq, Repr

namespace Removal

def append (first second : Removal) : Removal :=
  ⟨first.blanks ++ second.blanks, first.aliases ++ second.aliases⟩

instance : Append Removal := ⟨append⟩

end Removal

def spanOf (lexemes : List Lexeme) (first last : Nat) : List Span :=
  match lexemes[first]?, lexemes[last]? with
  | some first, some last => [⟨first.start, last.stop⟩]
  | _, _ => []

/-- Generic parameters in the header of a class-like declaration: every group of angle brackets up
to the body, as far as the groups close. `skip` lexemes belong to a group already found. -/
def headerGenerics (skip : Nat) : List Lexeme → List Span
  | [] => []
  | lexeme :: rest =>
    match skip with
    | skip + 1 => headerGenerics skip rest
    | 0 =>
      if lexeme.token.isPunct ['{', ';'] then []
      else if lexeme.token = .punct '<' then
        match Lexeme.matchingAngle (lexeme :: rest) with
        | some close => spanOf (lexeme :: rest) 0 close ++ headerGenerics close rest
        | none => []
      else headerGenerics 0 rest

def functionGenerics (rest : List Lexeme) : List Span :=
  let rest := if punctAhead ['&'] rest 0 then rest.tail else rest
  if (nameAhead rest 0).isSome && punctAhead ['<'] rest 1 then
    match Lexeme.matchingAngle rest.tail with
    | some close => spanOf rest.tail 0 close
    | none => []
  else []

/-- Number of lexemes in front of an opening brace, unless the statement ends before it. -/
def bodyStart : List Lexeme → Option Nat
  | [] => none
  | lexeme :: rest =>
    if lexeme.token = .punct '{' then some 0
    else if lexeme.token.isPunct [';', '}'] then none
    else (bodyStart rest).map (· + 1)

/-- Base type and members of a Hack enum, given what follows its keyword. Enums of PHP, whose
members are introduced by a keyword, are left alone. -/
def enumBody (rest : List Lexeme) : List Span :=
  let found := do
    let _ ← nameAhead rest 0
    let header ← bodyStart rest.tail
    let body := rest.drop (header + 1)
    guard ((nameAhead body 1).isSome && punctAhead ['='] body 2)
    let close ← Lexeme.matchingBrace body
    return (if 0 < header then spanOf rest 1 header else []) ++
      (if 1 < close then spanOf body 1 (close - 1) else [])
  found.getD []

/-- The alias declared by the statement at the front of the list, and the number of lexemes of the
statement after the first. -/
def typeAlias (lexeme : Lexeme) (rest : List Lexeme) : Option (Removal × Nat) := do
  let name ← nameAhead rest 0
  guard (Lexeme.opensAlias rest)
  let last ← Lexeme.statementEnd 0 (lexeme :: rest)
  return (⟨spanOf (lexeme :: rest) 0 last, [⟨name, lexeme.start⟩]⟩, last)

def opensScope (rest : List Lexeme) : Bool :=
  punctAhead ['{'] rest 0 || ((nameAhead rest 0).isSome && punctAhead ['{'] rest 1)

/-- What the statement at the front of the list adds to the removal, the nesting after its keyword,
and the number of lexemes to skip. Nothing is looked at after the end of the program. -/
def statement (nesting : Nesting) (keyword : Keyword) (lexeme : Lexeme) (rest : List Lexeme) :
    Removal × Nesting × Nat :=
  match keyword with
  | .haltCompiler => ({}, nesting, rest.length)
  | .namespaceScope => ({}, if opensScope rest then nesting.expectScope else nesting, 0)
  | .typeDecl =>
    match typeAlias lexeme rest with
    | some (removal, skip) => (removal, nesting, skip)
    | none => ({}, nesting, 0)
  | .classDecl | .interfaceDecl | .traitDecl => ({ blanks := headerGenerics 0 rest }, nesting, 0)
  | .functionDecl => ({ blanks := functionGenerics rest }, nesting, 0)
  | .enumDecl => ({ blanks := enumBody rest }, nesting, 0)
  | .constDecl | .defineCall => ({}, nesting, 0)

def removal (nesting : Nesting) (previous : Option Token) (skip : Nat) : List Lexeme → Removal
  | [] => {}
  | lexeme :: rest =>
    match skip with
    | skip + 1 => removal nesting (some lexeme.token) skip rest
    | 0 =>
      match lexeme.token with
      | .punct mark =>
        let nesting :=
          if mark = '{' then nesting.opened else if mark = '}' then nesting.closed else nesting
        removal nesting (some lexeme.token) 0 rest
      | .ident word =>
        let starts := nesting.isTopLevel && startsStatement previous
        match if starts then Keyword.ofWord? word else none with
        | some keyword =>
          let (found, nesting, skip) := statement nesting keyword lexeme rest
          found ++ removal nesting (some lexeme.token) skip rest
        | none => removal nesting (some lexeme.token) 0 rest
      | _ => removal nesting (some lexeme.token) 0 rest

def blankChar (c : Char) : List Char :=
  if c = '\n' ∨ c = '\r' then [c] else List.replicate c.utf8Size ' '

/-- The ranges that do not begin before the last one kept has ended. -/
def disjointSpans (last : Nat) : List Span → List Span
  | [] => []
  | span :: rest =>
    if span.start < last then disjointSpans last rest else span :: disjointSpans span.stop rest

def Span.before (first second : Span) : Bool :=
  first.start < second.start || (first.start == second.start && first.stop ≤ second.stop)

/-- The text from an offset on, with the characters inside ascending disjoint ranges blanked. -/
def blankFrom (offset : Nat) (spans : List Span) : List Char → List Char
  | [] => []
  | c :: rest =>
    match spans.dropWhile (·.stop ≤ offset) with
    | [] => c :: rest
    | span :: more =>
      (if span.start ≤ offset then blankChar c else [c]) ++
        blankFrom (offset + c.utf8Size) (span :: more) rest

def blankSpans (spans : List Span) (source : List Char) : List Char :=
  blankFrom 0 (disjointSpans 0 (spans.mergeSort Span.before)) source

/-- A source the grammar of PHP accepts, and the aliases that were taken out of it. -/
structure Lowered where
  source : List Char
  aliases : List TypeAlias
deriving DecidableEq, Repr

def prepared (path : Path) (source : List Char) : List Char :=
  lowerElements (lowerTags (withHeader path source))

/-- A source that does not lex is left as it is; the grammar reports what is wrong with it. -/
def lower (path : Path) (source : List Char) : Lowered :=
  let source := prepared path source
  match Lexeme.lex .html source with
  | .error _ => ⟨source, []⟩
  | .ok lexemes =>
    let removed := removal {} none 0 lexemes
    ⟨blankSpans removed.blanks source, removed.aliases⟩

end AutoloadIndex.Dialect
