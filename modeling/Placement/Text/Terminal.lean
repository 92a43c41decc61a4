/-
  Placement/Text/Terminal.lean
  ============================
  **Text for terminals, and what is left of it without their control.**

  A message sets parts of its text off by *sequences*, which begin with the escape
  character and tell a terminal what to do.  `plain` is what is left for a reader
  without a terminal: all sequences are taken out, and so are all control characters
  but white space.

  What a message quotes may hold sequences too, and they need not be complete.  An
  incomplete sequence goes on into the text behind it, until that text ends it or begins
  another.  White space inside a sequence is shown; what follows it is shown as well, up
  to the next control character, which takes the sequence up again.
-/

namespace Placement

namespace Terminal

/-! ### Sequences -/

/-- What kind of sequence has begun, as far as it can be told. -/
inductive Sequence
  /-- Nothing but the escape character has been read. -/
  | begun
  /-- A short sequence, which the next digit, letter or mark ends. -/
  | short
  /-- A sequence with numbers, such as that of a colour, which a letter ends. -/
  | control
  /-- A string for the window, such as its title, which a bell ends. -/
  | title
  /-- The head of a string for the device, which a letter ends. -/
  | header
  /-- The head of such a string, from its numbers on. -/
  | numbers
  /-- The head of such a string, from its marks on. -/
  | marks
  /-- A string that is shown nowhere. -/
  | hidden
  deriving DecidableEq

/-- Where in a text a character stands. -/
inductive Place
  | text
  | inside (s : Sequence)
  /-- Behind white space that interrupted a sequence. -/
  | paused (s : Sequence)
  deriving DecidableEq

/-- White space among the control characters. -/
def isSpacing (c : Char) : Bool := c = '\t' || c = '\n' || c = '\x0c' || c = '\r'

/-- Whether a character is shown outside of sequences. -/
def isShown (c : Char) : Bool := isSpacing c || (decide (' ' ≤ c) && decide (c ≠ '\x7f'))

/-- Whether a character has the octet that ends a hidden string. -/
def endsHidden (c : Char) : Bool := (String.utf8EncodeChar c).contains 0x9C

/-- Where a character inside a sequence leads to. -/
def Sequence.next (s : Sequence) (c : Char) : Place :=
  match s with
  | .begun =>
    if isSpacing c then .paused .begun
    else if c = '[' then .inside .control
    else if c = ']' then .inside .title
    else if c = 'P' then .inside .header
    else if c = 'X' ∨ c = '^' ∨ c = '_' then .inside .hidden
    else if '0' ≤ c ∧ c ≤ '~' then .text
    else if ' ' ≤ c ∧ c ≤ '/' then .inside .short
    else .inside .begun
  | .short =>
    if isSpacing c then .paused .short
    else if '0' ≤ c ∧ c ≤ '~' then .text
    else .inside .short
  | .control =>
    if isSpacing c then .paused .control
    else if '@' ≤ c ∧ c ≤ '~' then .text
    else .inside .control
  | .title => if c = '\x07' then .text else .inside .title
  | .header =>
    if '@' ≤ c ∧ c ≤ '~' then .inside .hidden
    else if '0' ≤ c ∧ c ≤ '?' then .inside .numbers
    else if ' ' ≤ c ∧ c ≤ '/' then .inside .marks
    else .inside .header
  | .numbers =>
    if '<' ≤ c ∧ c ≤ '~' then .inside .hidden
    else if ' ' ≤ c ∧ c ≤ '/' then .inside .marks
    else .inside .numbers
  | .marks => if '0' ≤ c ∧ c ≤ '~' then .inside .hidden else .inside .marks
  | .hidden => if endsHidden c then .text else .inside .hidden

/-! ### Plain text -/

/-- Where a character leads to.  The escape character begins a sequence everywhere, and
    the two characters that cancel end one everywhere. -/
def Place.next (p : Place) (c : Char) : Place :=
  if c = '\x1b' then .inside .begun
  else if c = '\x18' ∨ c = '\x1a' then .text
  else
    match p with
    | .text => .text
    | .inside s => s.next c
    | .paused s =>
      if isShown c then (if c ≤ '\x7f' then .paused s else .text) else .inside s

def Place.shows (p : Place) (c : Char) : Bool :=
  match p, p.next c with
  | .inside _, .paused _ => true
  | .inside _, _ => false
  | _, _ => isShown c

def plainFrom : Place → List Char → List Char
  | _, [] => []
  | p, c :: cs => if p.shows c then c :: plainFrom (p.next c) cs else plainFrom (p.next c) cs

/-- A text without sequences and without control characters but white space. -/
def plain (text : String) : String := String.ofList (plainFrom .text text.toList)

/-! ### Setting text off -/

/-- The styles in which parts of a message are set off. -/
inductive Style
  | alarm
  | invalid
  /-- What can be typed as it stands. -/
  | literal

/-- The number by which terminals know a style. -/
def Style.code : Style → Nat
  | .alarm => 31
  | .invalid => 33
  | .literal => 1

/-- A text in a style, and the usual style again behind it. -/
def Style.apply (style : Style) (text : String) : String :=
  "\x1b[" ++ style.code.repr ++ "m" ++ text ++ "\x1b[0m"

end Terminal

end Placement
