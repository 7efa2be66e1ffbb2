/-!
# Control sequences of terminals

Text that somebody typed may hold the sequences by which terminals are told about colours,
positions and titles.  A message repeats such text without them, and without control
characters other than white space.

A sequence starts with an escape character.  One that is cut short takes the rest of the
text with it.  White space within a short sequence is shown, and so is what follows it, up
to the next control character, which leads back into the sequence.

## Main definitions

* `Terminal.Mode`: where the text stands.
* `Terminal.step`: what a character does, and whether it is shown.
* `withoutControls`: a text as it is shown.
-/

namespace Milestones

namespace Terminal

/-- Where the text stands. -/
inductive Mode where
  /-- In text that is shown. -/
  | shown
  /-- After an escape character. -/
  | escape
  /-- After an escape character and at least one intermediate character. -/
  | escapeTail
  /-- In the parameters of a control sequence, which a letter ends. -/
  | parameters
  /-- At the start of a device control string. -/
  | device
  /-- In the numbers of a device control string. -/
  | deviceNumbers
  /-- After an intermediate character of a device control string. -/
  | deviceTail
  /-- In the text of a device control string, or of another that no bell ends. -/
  | payload
  /-- In the text of a command to the system, such as a title, which a bell ends. -/
  | systemCommand
  /-- In text that is shown because white space came within a sequence. -/
  | shownWithin (sequence : Mode)
deriving DecidableEq

/-- The character is white space that moves the place of writing. -/
def isWhiteControl (c : Char) : Bool := c == '\t' || c == '\n' || c == '\x0c' || c == '\r'

/-- The character is one of the ASCII control characters. -/
def isControl (c : Char) : Bool := c.toNat < 0x20 || c.toNat == 0x7F

/-- The code of the character lies in a range. -/
def isWithin (least most : Nat) (c : Char) : Bool := least ≤ c.toNat && c.toNat ≤ most

/-- The character may stand before the last one of an escape sequence. -/
def isIntermediate : Char → Bool := isWithin 0x20 0x2F

/-- The byte that ends a string is one of the bytes of the character. -/
def holdsTerminator (c : Char) : Bool := (String.utf8EncodeChar c).contains 0x9C

/-- Where the text stands after a character that belongs to a sequence. -/
def Mode.next (m : Mode) (c : Char) : Mode :=
  match m with
  | .escape =>
    if isIntermediate c then .escapeTail
    else if c = '[' then .parameters
    else if c = ']' then .systemCommand
    else if c = 'P' then .device
    else if c = 'X' ∨ c = '^' ∨ c = '_' then .payload
    else if isWithin 0x30 0x7E c then .shown
    else m
  | .escapeTail => if isWithin 0x30 0x7E c then .shown else m
  | .parameters => if isWithin 0x40 0x7E c then .shown else m
  | .device =>
    if isIntermediate c then .deviceTail
    else if isWithin 0x30 0x3F c then .deviceNumbers
    else if isWithin 0x40 0x7E c then .payload
    else m
  | .deviceNumbers =>
    if isIntermediate c then .deviceTail
    else if isWithin 0x3C 0x7E c then .payload
    else m
  | .deviceTail => if isWithin 0x30 0x7E c then .payload else m
  | .payload => if holdsTerminator c then .shown else m
  | .systemCommand => if c = '\x07' then .shown else m
  | .shown | .shownWithin _ => m

/-- Whether a character is shown, and where the text stands after it.  An escape character
starts a sequence anywhere; two others end one anywhere. -/
def step (m : Mode) (c : Char) : Bool × Mode :=
  if c = '\x1b' then (false, .escape)
  else if c = '\x18' ∨ c = '\x1a' then (false, .shown)
  else
    match m with
    | .shown => (isWhiteControl c || !isControl c, .shown)
    | .shownWithin sequence =>
      if isWhiteControl c then (true, m)
      else if isControl c then (false, sequence)
      else (true, if c.toNat < 0x80 then m else .shown)
    | .escape | .escapeTail | .parameters =>
      if isWhiteControl c then (true, .shownWithin m) else (false, m.next c)
    | _ => (false, m.next c)

/-- The characters that are shown. -/
def visible : Mode → List Char → List Char
  | _, [] => []
  | m, c :: rest =>
    let (isShown, m) := step m c
    if isShown then c :: visible m rest else visible m rest

end Terminal

/-- A text as a terminal would show it, in one colour and one place. -/
def withoutControls (s : String) : String := String.ofList (Terminal.visible .shown s.toList)

end Milestones
