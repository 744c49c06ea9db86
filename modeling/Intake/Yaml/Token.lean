/-
Tokens: the marks and scalars of a document, in order.

Blocks are told by indentation. A token that closes a block has no characters of its own; it comes where a line
begins further to the left. That something is a key is known only from the colon after it, so every place
where a key may begin is remembered until its line ends, and the token that marks the key is put there later.

A text that stops making sense ends in an invalid token.

Main definition: `tokens`.
-/
import Intake.Yaml.ScalarText

namespace Intake.Yaml

open Intake.Number Intake.Text

/-- a tag as it is written: a handle, unless the name is in full, and the rest of the name -/
structure TagText where
  handle : Option String
  suffix : String

/-- a line before a document that says how to read it -/
inductive Directive where
  /-- the version of the format, by its first number -/
  | version (major : Nat)
  /-- a handle for the beginning of tags -/
  | handle (name start : String)
  | other

/-- a part of a document -/
inductive Token where
  | directive (d : Directive)
  | documentStart | documentEnd
  | blockList | blockMapping | blockEnd
  | flowList | flowListEnd | flowMapping | flowMappingEnd
  /-- the mark of a list item in a block -/
  | item
  /-- the mark between items in a flow -/
  | comma
  | key | value
  | alias (name : String)
  | anchor (name : String)
  | tag (t : TagText)
  | scalar (text : List Char) (isPlain : Bool)
  /-- the text makes no sense from here on -/
  | invalid (t : Trouble)

/-- a place where a key may begin -/
structure KeyPlace where
  /-- how many tokens come before -/
  position : Nat
  /-- a key must begin here, since the block is one of entries -/
  required : Bool
  index : Nat
  line : Nat
  column : Nat

/-- the tokens so far, and what tells the next -/
structure Lexer where
  cursor : Cursor
  /-- the tokens so far, the last first -/
  found : List Token
  count : Nat
  /-- how many flow collections are open -/
  flow : Nat
  /-- the column of the block that is open, or one less than the first -/
  indent : Int
  /-- the columns of the blocks around it -/
  outer : List Int
  /-- a key may begin here -/
  keyAllowed : Bool
  /-- where keys may have begun, by the number of open flow collections -/
  keys : List (Nat × KeyPlace)

namespace Lexer

def start (cs : List Char) : Lexer := ⟨Cursor.start cs, [], 0, 0, -1, [], true, []⟩

def push (s : Lexer) (t : Token) : Lexer := { s with found := t :: s.found, count := s.count + 1 }

def insertAt (s : Lexer) (position : Nat) (t : Token) : Lexer :=
  let after := s.count - position
  { s with found := s.found.take after ++ t :: s.found.drop after, count := s.count + 1 }

/-- the place of a key in the open flow collection -/
def keyHere? (s : Lexer) : Option KeyPlace := s.keys.lookup s.flow

/-- the place of a key in the open flow collection is forgotten -/
def dropKey (s : Lexer) : Lexer := { s with keys := s.keys.filter (·.1 != s.flow) }

/-- no key has begun in the open flow collection -/
def closeKey (s : Lexer) : Scan Lexer :=
  if (s.keyHere?.map (·.required)).getD false then malformed else .ok s.dropKey

def keyReach : Nat := 1024

/-- a place where a key began on an earlier line, or too far back, is one no more -/
def dropStaleKeys (s : Lexer) : Scan Lexer :=
  let isStale (k : KeyPlace) : Bool := k.line != s.cursor.line || keyReach < s.cursor.index - k.index
  if s.keys.any fun k => isStale k.2 && k.2.required then malformed
  else .ok { s with keys := s.keys.filter fun k => !isStale k.2 }

/-- a key may begin at the cursor -/
def openKey (s : Lexer) : Scan Lexer :=
  if s.keyAllowed then do
    let s ← s.closeKey
    let c := s.cursor
    let required := s.flow == 0 && s.indent == (c.column : Int)
    .ok { s with keys := (s.flow, ⟨s.count, required, c.index, c.line, c.column⟩) :: s.keys }
  else .ok s

/-- closes the blocks that are further to the right than a column -/
def unwindFrom (column : Int) (s : Lexer) : List Int → Lexer
  | [] => s
  | o :: os =>
    if column < s.indent then unwindFrom column { s.push .blockEnd with indent := o, outer := os } os else s

/-- closes the blocks that are further to the right than a column; inside a flow there are none -/
def unwind (s : Lexer) (column : Int) : Lexer := if s.flow = 0 then unwindFrom column s s.outer else s

def opensBlock (s : Lexer) (column : Nat) : Bool := s.flow == 0 && decide (s.indent < column)

def openBlock (s : Lexer) (column : Nat) : Lexer := { s with outer := s.indent :: s.outer, indent := column }

/-- a further token after some characters of the text -/
def pushAfter (s : Lexer) (n : Nat) (t : Token) : Lexer := ({ s with cursor := s.cursor.skip n }).push t

/-! ## Marks -/

def documentMark (s : Lexer) (t : Token) : Scan Lexer := do
  let s ← (s.unwind (-1)).closeKey
  .ok { s.pushAfter 3 t with keyAllowed := false }

def openFlow (s : Lexer) (t : Token) : Scan Lexer := do
  let s ← s.openKey
  .ok { s.pushAfter 1 t with flow := s.flow + 1, keyAllowed := true }

def closeFlow (s : Lexer) (t : Token) : Scan Lexer := do
  let s ← s.closeKey
  if s.flow = 0 then malformed else .ok { s.pushAfter 1 t with flow := s.flow - 1, keyAllowed := false }

def commaMark (s : Lexer) : Scan Lexer := do
  let s ← s.closeKey
  .ok { s.pushAfter 1 .comma with keyAllowed := true }

/-- a mark that opens a block at its column, where a key may begin -/
def blockMark (s : Lexer) (opening mark : Token) (allowsKey : Bool) : Scan Lexer := do
  if s.flow = 0 ∧ !s.keyAllowed then malformed
  else
    let column := s.cursor.column
    let s := if s.opensBlock column then (s.openBlock column).push opening else s
    let s ← s.closeKey
    .ok { s.pushAfter 1 mark with keyAllowed := allowsKey }

def itemMark (s : Lexer) : Scan Lexer := s.blockMark .blockList .item true

def keyMark (s : Lexer) : Scan Lexer := s.blockMark .blockMapping .key (s.flow == 0)

/-- the mark of a value. If a key may have begun before it, that was the key -/
def valueMark (s : Lexer) : Scan Lexer :=
  match s.keyHere? with
  | some k =>
    let s := s.dropKey.insertAt k.position .key
    let s := if s.opensBlock k.column then (s.openBlock k.column).insertAt k.position .blockMapping else s
    .ok { s.pushAfter 1 .value with keyAllowed := false }
  | none => s.blockMark .blockMapping .value (s.flow == 0)

/-! ## Names -/

def isNameChar (c : Char) : Bool := c.isAlphanum || c == '-' || c == '_'

/-- a name after a mark, which only some characters may follow -/
def nameMark (s : Lexer) (token : String → Token) : Scan Lexer := do
  let s ← s.openKey
  let (name, c) := s.cursor.next.span isNameChar
  if name.isEmpty || !(isSpacing c.peek || "?:,]\x7d%@\x60".toList.contains c.peek) then malformed
  else .ok { ({ s with cursor := c }).push (token (String.ofList name)) with keyAllowed := false }

def isTagChar (c : Char) : Bool := c.isAlphanum || "-;/?:@&=+$,_.!~*\x27()[]%".toList.contains c

/-- the bytes of escapes in a tag -/
def tagBytes : Nat → Cursor → Scan (List UInt8 × Cursor)
  | 0, c => .ok ([], c)
  | fuel + 1, c =>
    if c.peek == '%' then
      match hexValue? (c.peekAt 1), hexValue? (c.peekAt 2) with
      | some a, some b => do
        let (rest, c) ← tagBytes fuel (c.skip 3)
        .ok (UInt8.ofNat (16 * a + b) :: rest, c)
      | _, _ => malformed
    else .ok ([], c)

/-- the text of bytes, which must be well formed -/
def tagDecoded (bytes : List UInt8) : Scan (List Char) :=
  let cs := decodeUtf8 bytes
  if (String.ofList cs).toUTF8.toList = bytes then .ok cs else malformed

/-- the characters of a tag, and the place after them -/
def tagChars : Nat → Cursor → Scan (List Char × Cursor)
  | 0, c => .ok ([], c)
  | fuel + 1, c =>
    if c.peek == '%' then do
      let (bytes, c) ← tagBytes c.fuel c
      let part ← tagDecoded bytes
      let (rest, c) ← tagChars fuel c
      .ok (part ++ rest, c)
    else if isTagChar c.peek then do
      let (rest, d) ← tagChars fuel c.next
      .ok (c.peek :: rest, d)
    else .ok ([], c)

/-- the end of a tag, which has at least one character -/
def tagSuffix (c : Cursor) : Scan (String × Cursor) := do
  let (cs, d) ← tagChars c.fuel c
  if d.index = c.index then malformed else .ok (String.ofList cs, d)

/-- a handle: an exclamation mark, or two with a name between -/
def tagHandle (c : Cursor) : Scan (String × Cursor) := do
  if c.peek != '!' then malformed
  else if c.peekAt 1 == ' ' then .ok ("!", c.next)
  else
    let (name, d) := c.next.span isNameChar
    if d.peek == '!' then .ok (String.ofList ('!' :: name ++ ['!']), d.next) else malformed

/-- whether a tag has a second exclamation mark before the next spacing -/
def hasHandle (c : Cursor) : Bool :=
  (c.rest.drop 1).takeWhile (fun ch => ch != ' ' && !endsLine ch) |>.contains '!'

/-- a tag, and the place after it -/
def tagText (c : Cursor) : Scan (TagText × Cursor) := do
  let second := c.peekAt 1
  let (t, c) ←
    if second == '<' then do
      let (suffix, c) ← tagSuffix (c.skip 2)
      if c.peek == '>' then .ok ((⟨none, suffix⟩ : TagText), c.next) else malformed
    else if isSpacing second then .ok (⟨none, "!"⟩, c.next)
    else if hasHandle c then do
      let (handle, c) ← tagHandle c
      let (suffix, c) ← tagSuffix c
      .ok (⟨some handle, suffix⟩, c)
    else do
      let (suffix, c) ← tagSuffix c.next
      .ok (⟨some "!", suffix⟩, c)
  if c.peek == ' ' || endsLine c.peek then .ok (t, c) else malformed

def tagMark (s : Lexer) : Scan Lexer := do
  let s ← s.openKey
  let (t, c) ← tagText s.cursor
  .ok { ({ s with cursor := c }).push (.tag t) with keyAllowed := false }

/-! ## Directives -/

def directiveNumber (c : Cursor) : Scan (Nat × Cursor) := do
  let (ds, c) := c.span Char.isDigit
  if ds.isEmpty then malformed
  else match ofDigits? ds with
    | some n => .ok (n, c)
    | none => .error (.fault .badValue)

def versionDirective (c : Cursor) : Scan (Directive × Cursor) := do
  let (major, c) ← directiveNumber c.skipSpaces
  if c.peek != '.' then malformed
  else
    let (_, c) ← directiveNumber c.next
    if c.peek == ' ' || endsLine c.peek then .ok (.version major, c) else malformed

def handleDirective (c : Cursor) : Scan (Directive × Cursor) := do
  let (handle, c) ← tagHandle c.skipSpaces
  if c.peek != ' ' then malformed
  else
    let (start, c) ← tagSuffix c.skipSpaces
    if c.peek == ' ' || endsLine c.peek then .ok (.handle handle start, c) else malformed

/-- a line that says how to read a document -/
def directiveMark (s : Lexer) : Scan Lexer := do
  let s ← (s.unwind (-1)).closeKey
  let (name, c) := s.cursor.next.span isNameChar
  if name.isEmpty || !(c.peek == ' ' || endsLine c.peek) then malformed
  else
    let (d, c) ←
      if name == "YAML".toList then versionDirective c
      else if name == "TAG".toList then handleDirective c
      else .ok (.other, c.skipLine)
    let c := c.skipSpaces.skipComment
    if endsLine c.peek then
      .ok { ({ s with cursor := c.lineBreak.2 }).push (.directive d) with keyAllowed := false }
    else malformed

/-! ## Scalars -/

def plainToken (s : Lexer) : Scan Lexer := do
  let s ← s.openKey
  let t := plainScalar (s.flow != 0) s.indent s.cursor
  .ok { ({ s with cursor := t.cursor }).push (.scalar t.text true) with keyAllowed := t.crossed }

def quotedToken (s : Lexer) : Scan Lexer := do
  let s ← s.openKey
  let (text, c) ← quotedScalar s.cursor
  .ok { ({ s with cursor := c }).push (.scalar text false) with keyAllowed := false }

def blockToken (s : Lexer) (isFolded : Bool) : Scan Lexer := do
  let s ← s.closeKey
  let (text, c) ← blockScalar isFolded s.indent s.cursor
  .ok { ({ s with cursor := c }).push (.scalar text false) with keyAllowed := true }

/-! ## Dispatch -/

/-- the place of the next token; after the end of a line in a block a key may begin -/
def toNextFrom (inFlow : Bool) : Nat → Cursor → Bool → Cursor × Bool
  | 0, c, allowed => (c, allowed)
  | fuel + 1, c, allowed =>
    match c.skipSpaces.skipComment.lineBreak with
    | ([], c) => (c, allowed)
    | (_, c) => toNextFrom inFlow fuel c (allowed || !inFlow)

/-- the place of the next token; a byte order mark at the front is passed over -/
def toNext (s : Lexer) : Lexer :=
  let c := s.cursor
  let c := if c.index = 0 ∧ c.peek.toNat = 0xfeff then c.next else c
  let (c, allowed) := toNextFrom (s.flow != 0) c.fuel c s.keyAllowed
  { s with cursor := c, keyAllowed := allowed }

/-- characters that cannot begin a scalar without quotes -/
def reserved : List Char := "-?:,[]#&*!|>\x27\"%@\x60\x7b\x7d".toList

/-- a scalar without quotes may begin with a character before another -/
def beginsPlain (inFlow : Bool) (c next : Char) : Bool :=
  (!isSpacing c && !reserved.contains c) ||
    (!isSpacing next && (c == '-' || (!inFlow && (c == '?' || c == ':'))))

/-- the next token, at the cursor -/
def dispatch (s : Lexer) : Scan Lexer :=
  let c := s.cursor
  let ch := c.peek
  let inFlow := s.flow != 0
  let isMark := inFlow || isSpacing (c.peekAt 1)
  if ch == '%' && c.column == 0 then s.directiveMark
  else if ch == '-' && c.column == 0 && c.atMark then s.documentMark .documentStart
  else if ch == '.' && c.column == 0 && c.atMark then s.documentMark .documentEnd
  else if ch == '[' then s.openFlow .flowList
  else if ch == '\x7b' then s.openFlow .flowMapping
  else if ch == ']' then s.closeFlow .flowListEnd
  else if ch == '\x7d' then s.closeFlow .flowMappingEnd
  else if ch == ',' then s.commaMark
  else if ch == '-' && isSpacing (c.peekAt 1) then s.itemMark
  else if ch == '?' && isMark then s.keyMark
  else if ch == ':' && isMark then s.valueMark
  else if ch == '*' then s.nameMark .alias
  else if ch == '&' then s.nameMark .anchor
  else if ch == '!' then s.tagMark
  else if ch == '|' && !inFlow then s.blockToken false
  else if ch == '>' && !inFlow then s.blockToken true
  else if ch == '\x27' || ch == '"' then s.quotedToken
  else if beginsPlain inFlow ch (c.peekAt 1) then s.plainToken
  else malformed

/-- the tokens of the rest of the text -/
def run : Nat → Lexer → List Token
  | 0, s => s.found.reverse
  | fuel + 1, s =>
    match s.toNext.dropStaleKeys with
    | .error t => (Token.invalid t :: s.found).reverse
    | .ok s =>
      let s := s.unwind s.cursor.column
      if s.cursor.peek == endChar then
        match (s.unwind (-1)).closeKey with
        | .error t => (Token.invalid t :: s.found).reverse
        | .ok s => s.found.reverse
      else
        match s.dispatch with
        | .error t => (Token.invalid t :: s.found).reverse
        | .ok s => run fuel s

end Lexer

def tokens (cs : List Char) : List Token := (Lexer.start cs).run (cs.length + 1)

end Intake.Yaml
