import AutoloadIndex.Path
import AutoloadIndex.Text.Blank
import AutoloadIndex.Text.Word

set_option autoImplicit false

/-!
Headers of source files: files that are code from the first character, and the open tag of Hack.
-/

namespace AutoloadIndex.Dialect

def headerlessExtensions : List String := ["hack", "hck"]

/-- Open tag that is put in front of headerless files; it stays on the first line. -/
def codeHeader : List Char := ['<', '?', 'p', 'h', 'p', ' ']

def afterShebang (source : List Char) : List Char :=
  if ['#', '!'].isPrefixOf source then (source.dropWhile (· != '\n')).tail else source

/-- Whether a file is code from its first character: its extension allows that, and no open tag
stands at its start. -/
def startsInCode (path : Path) (source : List Char) : Bool :=
  let headerless := path.extension.any fun extension =>
    headerlessExtensions.any (Text.sameIgnoringCase extension.toList ·.toList)
  let opened := ['<', '?'].isPrefixOf ((afterShebang source).dropWhile Text.isBlank)
  headerless && !opened

def withHeader (path : Path) (source : List Char) : List Char :=
  if startsInCode path source then codeHeader ++ source else source

/-- Open tags of Hack become open tags of PHP, where the word ends with the tag. -/
def lowerTags : List Char → List Char
  | '<' :: '?' :: 'h' :: 'h' :: rest =>
    if rest.head?.any Text.isWord then '<' :: '?' :: 'h' :: 'h' :: lowerTags rest
    else '<' :: '?' :: 'p' :: 'h' :: 'p' :: lowerTags rest
  | c :: rest => c :: lowerTags rest
  | [] => []

end AutoloadIndex.Dialect
