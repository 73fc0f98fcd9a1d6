set_option autoImplicit false

/-!
Texts are lists of characters. Positions in a source are counted in bytes of its UTF-8 form, so a
text has a width beside its length.
-/

namespace AutoloadIndex.Text

/-- Number of bytes of the UTF-8 form. -/
def width : List Char → Nat
  | [] => 0
  | c :: rest => c.utf8Size + width rest

@[simp] theorem width_nil : width [] = 0 := rfl

@[simp] theorem width_cons (c : Char) (cs : List Char) :
    width (c :: cs) = c.utf8Size + width cs := rfl

@[simp] theorem width_append (first second : List Char) :
    width (first ++ second) = width first + width second := by
  induction first with
  | nil => simp
  | cons c cs ih => simp [ih, Nat.add_assoc]

def lowerAscii (cs : List Char) : List Char := cs.map Char.toLower

def sameIgnoringCase (first second : List Char) : Bool := lowerAscii first == lowerAscii second

def trimStart (mark : Char) (cs : List Char) : List Char := cs.dropWhile (· == mark)

def trimEnd (mark : Char) (cs : List Char) : List Char := (cs.reverse.dropWhile (· == mark)).reverse

def trim (mark : Char) (cs : List Char) : List Char := trimEnd mark (trimStart mark cs)

end AutoloadIndex.Text
