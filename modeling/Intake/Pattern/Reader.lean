/-
Reading a pattern's text.

The text is cut into tokens, a backslash together with the character after it. A recursive descent over the
tokens builds the tree; its state holds the tokens left, the groups opened and closed so far, and the flags
of the whole pattern. A pattern that breaks a rule of the notation is refused as none (`Refusal.invalid`); the other
refusals are not of that kind, and whoever has the pattern read has to deal with each.

A backslash at the end is found as soon as it comes next. What a look-behind can match is measured after all else.

Every step takes at least one token before it goes deeper, so the fuel that `compile` gives, three steps for
each token, is never used up.
-/
import Intake.Pattern.Basic
import Intake.Text.Identifier
import Intake.Number.Numeral

namespace Intake.Pattern

open Intake.Text Intake.Number

/-- why a pattern is refused -/
inductive Refusal where
  /-- it is no pattern -/
  | invalid
  /-- it asks for too many repetitions -/
  | tooMany
  /-- it names two alphabets for the whole, or a numeral in it is too long -/
  | badValue
  /-- its groups are nested too deep -/
  | tooDeep
  /-- it asks for a character by its name, and names of characters are not kept here -/
  | named
  deriving DecidableEq, Repr

/-- a character, or an escaped one -/
inductive Token where
  | plain (c : Char)
  | escaped (c : Char)
  deriving DecidableEq, Repr

namespace Token

/-- the tokens of a text, and whether a backslash that escapes nothing comes after them -/
def ofText : List Char → List Token × Bool
  | [] => ([], false)
  | ['\\'] => ([], true)
  | '\\' :: c :: cs => ((ofText cs).map (.escaped c :: ·) id)
  | c :: cs => ((ofText cs).map (.plain c :: ·) id)

def chars : Token → List Char
  | .plain c => [c]
  | .escaped c => ['\\', c]

end Token

/-- what reading has come to -/
structure State where
  tokens : List Token
  /-- a backslash comes after the tokens -/
  dangling : Bool
  /-- the number of the next group -/
  next : Nat
  /-- the names of groups -/
  names : List (String × Nat)
  /-- the groups that are closed, with their widths -/
  closed : List (Nat × Width)
  /-- inside a look-behind, the number of the first group opened in it -/
  behind : Option Nat
  /-- groups asked for by number before they may exist -/
  asked : List Nat
  /-- flags of the whole pattern -/
  flags : Flags
  /-- the whole pattern names the alphabet of all characters -/
  unicode : Bool
  /-- a look-behind can match texts of different lengths -/
  wavering : Bool

abbrev Read := StateT State (Except Refusal)

namespace Read

def fail {α : Type} : Read α := throw .invalid

def peek : Read (Option Token) := do return (← get).tokens.head?

/-- goes on to these tokens; a backslash must not come next -/
def goOn (ts : List Token) : Read Unit := do
  let s ← get
  if ts.isEmpty && s.dangling then fail else set { s with tokens := ts }

def take : Read (Option Token) := do
  match (← get).tokens with
  | [] => return none
  | t :: ts =>
    goOn ts
    return some t

/-- takes the next token if it is the given character -/
def accept (c : Char) : Read Bool := do
  if (← peek) = some (.plain c) then
    let _ ← take
    return true
  else return false

def expect (c : Char) : Read Unit := do
  if !(← accept c) then fail

/-- takes plain characters of a class, at most `n` -/
def takeWhile (isOk : Char → Bool) : Nat → Read (List Char)
  | 0 => return []
  | n + 1 => do
    match ← peek with
    | some (.plain c) =>
      if isOk c then
        let _ ← take
        return c :: (← takeWhile isOk n)
      else return []
    | _ => return []

def left : Read Nat := do return (← get).tokens.length

/-- takes the text up to a closing character, which must come after at least one other -/
def takeName (close : Char) : Read (List Char) := do
  let s ← get
  let body := s.tokens.takeWhile (· != .plain close)
  if body.isEmpty || body.length = s.tokens.length then fail
  else
    goOn (s.tokens.drop (body.length + 1))
    return body.flatMap Token.chars

end Read

/-! ## Escapes -/

def isOctal (c : Char) : Bool := decide ('0' ≤ c ∧ c ≤ '7')

def isHex (c : Char) : Bool := (hexValue? c).isSome

def ofOctal (cs : List Char) : Nat := cs.foldl (fun n c => 8 * n + (c.toNat - 48)) 0

/-- a number that stands for a character, or for half of a pair -/
def codeOf (n : Nat) : Read Nat := if n < 0x110000 then return n else Read.fail

/-- the characters with an escape of their own -/
def controlEscape? (c : Char) : Option Nat :=
  if c = 'a' then some 7
  else if c = 'b' then some 8
  else if c = 'f' then some 12
  else if c = 'n' then some 10
  else if c = 'r' then some 13
  else if c = 't' then some 9
  else if c = 'v' then some 11
  else if c = '\\' then some 92
  else none

/-- the classes with an escape; the capital letter stands for the opposite -/
def categoryEscape? (c : Char) : Option SetItem :=
  if c = 'd' then some (.category .digit false)
  else if c = 'D' then some (.category .digit true)
  else if c = 's' then some (.category .space false)
  else if c = 'S' then some (.category .space true)
  else if c = 'w' then some (.category .word false)
  else if c = 'W' then some (.category .word true)
  else none

def placeEscape? (c : Char) : Option Place :=
  if c = 'A' then some .textStart
  else if c = 'Z' then some .textEnd
  else if c = 'b' then some .wordEdge
  else if c = 'B' then some .insideWord
  else none

/-- a character by exactly `n` hexadecimal digits -/
def hexCode (n : Nat) : Read Nat := do
  let ds ← Read.takeWhile isHex n
  if ds.length = n then codeOf ((ofBaseDigits? 16 ds).getD 0) else Read.fail

def mayName (cs : List Char) : Bool :=
  (cs.head?.map Char.isAlpha).getD false && cs.all fun c => c.isAlphanum || c == ' ' || c == '-'

def namedCode : Read Nat := do
  Read.expect '\x7b'
  if mayName (← Read.takeName '\x7d') then throw .named else Read.fail

/-- the escapes that mean the same inside a set and outside -/
def commonEscape (c : Char) : Read Nat := do
  if c = 'x' then hexCode 2
  else if c = 'u' then hexCode 4
  else if c = 'U' then hexCode 8
  else if c = 'N' then namedCode
  else if c.isAlpha then Read.fail
  else return c.toNat

/-- an escape inside a set -/
def setEscape (c : Char) : Read SetItem := do
  match controlEscape? c, categoryEscape? c with
  | some d, _ => return .single d
  | none, some item => return item
  | none, none =>
    if isOctal c then
      let n := ofOctal (c :: (← Read.takeWhile isOctal 2))
      if n ≤ 0o377 then return .single n else Read.fail
    else if c.isDigit then Read.fail
    else return .single (← commonEscape c)

def literal (n : Nat) : Node := .one (.oneOf false [.single n])

/-- a group may be referred to: it is closed, and was not opened inside the look-behind around -/
def checkBehind (group : Nat) : Read Unit := do
  let s ← get
  match s.behind with
  | none => return
  | some first => if group < first && s.closed.any (·.1 == group) then return else Read.fail

def reference (group : Nat) : Read Node := do
  let s ← get
  if group < s.next && s.closed.any (·.1 == group) then
    checkBehind group
    return .sameAs group
  else Read.fail

/-- an escape that starts with a digit other than zero: a character by three octal digits, or a group -/
def digitEscape (c : Char) : Read Node := do
  match ← Read.peek with
  | some (.plain d) =>
    if d.isDigit then
      let _ ← Read.take
      let third := match ← Read.peek with
        | some (.plain e) => if isOctal c && isOctal d && isOctal e then some e else none
        | _ => none
      match third with
      | some e =>
        let _ ← Read.take
        let n := ofOctal [c, d, e]
        if n ≤ 0o377 then return literal n else Read.fail
      | none => reference (ofDigits [c, d])
    else reference (ofDigits [c])
  | _ => reference (ofDigits [c])

/-- an escape outside a set -/
def escape (c : Char) : Read Node := do
  match placeEscape? c, categoryEscape? c, controlEscape? c with
  | some p, _, _ => return .place p
  | none, some item, _ => return .one (.oneOf false [item])
  | none, none, some d => return literal d
  | none, none, none =>
    if c = '0' then return literal (ofOctal (← Read.takeWhile isOctal 2))
    else if c.isDigit then digitEscape c
    else return literal (← commonEscape c)

/-! ## Sets -/

def setMember (t : Token) : Read SetItem :=
  match t with
  | .escaped c => setEscape c
  | .plain c => return .single c.toNat

/-- the items of a set up to its closing bracket, which does not close an empty set -/
def setItems : Nat → List SetItem → Read (List SetItem)
  | 0, _ => Read.fail
  | fuel + 1, items => do
    match ← Read.take with
    | none => Read.fail
    | some t =>
      if t = .plain ']' && !items.isEmpty then return items
      else
        let first ← setMember t
        if ← Read.accept '-' then
          match ← Read.take with
          | none => Read.fail
          | some u =>
            if u = .plain ']' then return items ++ [first, .single 45]
            else
              match first, ← setMember u with
              | .single a, .single b =>
                if a ≤ b then setItems fuel (items ++ [.span a b]) else Read.fail
              | _, _ => Read.fail
        else setItems fuel (items ++ [first])

/-! ## Flags -/

/-- a letter that names a flag; two of them name the alphabet -/
def flagOf? (c : Char) : Option Flags :=
  if c = 'i' then some { Flags.none with ignoreCase := true }
  else if c = 'm' then some { Flags.none with multiLine := true }
  else if c = 's' then some { Flags.none with dotAll := true }
  else if c = 'x' then some { Flags.none with verbose := true }
  else if c = 'a' then some { Flags.none with ascii := true }
  else if c = 'u' then some Flags.none
  else none

def namesAlphabet (c : Char) : Bool := c == 'a' || c == 'u'

/-- letters of flags up to a character that ends them, the first letter being taken already: the letters,
and the character -/
def flagLetters (ends : List Char) : Nat → Char → Read (List Char × Char)
  | 0, _ => Read.fail
  | fuel + 1, c => do
    if (flagOf? c).isNone then Read.fail
    else match ← Read.take with
      | some (.plain d) =>
        if ends.contains d then return ([c], d)
        else
          let (more, e) ← flagLetters ends fuel d
          return (c :: more, e)
      | _ => Read.fail

def flagsOf (cs : List Char) : Flags := cs.foldl (fun f c => f.union ((flagOf? c).getD Flags.none)) Flags.none

/-- what flags in a group say: for the whole pattern, or on and off inside the group -/
inductive FlagGroup where
  | whole (f : Flags) (unicode : Bool)
  | inside (on off : Flags) (setsAlphabet : Bool)

/-- flags after a question mark; `c` is the first character of them -/
def flagGroup (c : Char) : Read FlagGroup := do
  let fuel ← Read.left
  let (letters, stop) ← if c = '-' then pure ([], '-') else flagLetters [')', '-', ':'] (fuel + 1) c
  if (letters.contains 'a' && letters.contains 'u') then Read.fail
  else
    let on := flagsOf letters
    let sets := letters.any namesAlphabet
    if stop = ')' then return .whole on (letters.contains 'u')
    else if stop = '-' then
      match ← Read.take with
      | some (.plain d) =>
        let (offLetters, _) ← flagLetters [':'] (fuel + 1) d
        let off := flagsOf offLetters
        if offLetters.any namesAlphabet || on.meets off then Read.fail else return .inside on off sets
      | _ => Read.fail
    else return .inside on Flags.none sets

/-! ## Repetitions -/

/-- the bounds between braces, if that is what stands there -/
def braces? : Read (Option (List Char × List Char)) := do
  let s ← get
  let fuel := s.tokens.length
  let lo ← Read.takeWhile Char.isDigit fuel
  let hi ← if ← Read.accept ',' then Read.takeWhile Char.isDigit fuel else pure lo
  if ← Read.accept '\x7d' then return some (lo, hi)
  else
    set s
    return none

/-- a bound; one that is too long or too large is refused as such -/
def bound (cs : List Char) : Read Nat :=
  let n := ofDigits cs
  if maxDigits < cs.length then throw .badValue
  else if Width.limit ≤ n then throw .tooMany
  else return n

/-- the bounds of a repetition whose first character is taken; none if it is an ordinary brace -/
def bounds? (c : Char) : Read (Option (Nat × Option Nat)) := do
  if c = '?' then return some (0, some 1)
  else if c = '*' then return some (0, none)
  else if c = '+' then return some (1, none)
  else if (← Read.peek) = some (.plain '\x7d') then return none
  else
    match ← braces? with
    | none => return none
    | some (lo, hi) =>
      let least ← if lo.isEmpty then pure 0 else bound lo
      if hi.isEmpty then return some (least, none)
      else
        let most ← bound hi
        if most < least then Read.fail else return some (least, some most)

/-- a tree that may be repeated: not a place, and not a repetition already -/
def repeatable : Node → Bool
  | .place _ => false
  | .loop .. => false
  | _ => true

/-- how a repetition goes on, by the mark after it -/
def greed : Read Greed := do
  if ← Read.accept '?' then return .lazy
  else if ← Read.accept '+' then return .possessive
  else return .greedy

/-- repeats the last of the trees read so far -/
def repeated (least : Nat) (most : Option Nat) (items : List Node) : Read (List Node) := do
  match items with
  | [] => Read.fail
  | last :: before =>
    if repeatable last then
      return .loop (← greed) least most last :: before
    else Read.fail

/-! ## Groups and sequences -/

/-- opens a group, under a name if it has one -/
def openGroup (name : Option String) : Read Nat := do
  let s ← get
  match name with
  | none =>
    set { s with next := s.next + 1 }
    return s.next
  | some n =>
    if s.names.any (·.1 == n) then Read.fail
    else
      set { s with next := s.next + 1, names := (n, s.next) :: s.names }
      return s.next

def closeGroup (index : Nat) (body : Node) : Read Unit := do
  modify fun s => { s with closed := (index, body.width s.closed) :: s.closed }

def groupName (close : Char) : Read String := do
  let cs ← Read.takeName close
  if isIdentifier cs then return String.ofList cs else Read.fail

/-- the group that a condition names or numbers -/
def conditionGroup : Read Nat := do
  let cs ← Read.takeName ')'
  if isIdentifier cs then
    match (← get).names.find? (·.1 == String.ofList cs) with
    | some (_, i) => return i
    | none => Read.fail
  else
    match integer? cs with
    | some n =>
      if 0 < n ∧ n < 1073741823 then
        modify fun s => { s with asked := n.toNat :: s.asked }
        return n.toNat
      else Read.fail
    | none => Read.fail

def sequence (items : List Node) : Node :=
  items.foldl (fun acc n => match acc with
    | .empty => n
    | acc => .seq n acc) .empty

def isPatternBlank (c : Char) : Bool :=
  c == ' ' || c == '\t' || c == '\n' || c == '\r' || c == Char.ofNat 11 || c == Char.ofNat 12

/-- passes over tokens up to one, and over it if it is there -/
def skipPast (stop : Token) : Read Bool := do
  let s ← get
  let rest := s.tokens.dropWhile (· != stop)
  Read.goOn (rest.drop 1)
  return !rest.isEmpty

/-- what stands after an opening bracket and a question mark -/
inductive Opening where
  | plain (name : Option String)
  | unnumbered
  | atomic
  | look (behind negated : Bool)
  | back (name : String)
  | condition
  | comment
  | flags (g : FlagGroup)

/-- reads what an opening bracket opens -/
def opening : Read Opening := do
  if !(← Read.accept '?') then return .plain none
  else match ← Read.take with
    | some (.plain c) =>
      if c = 'P' then
        if ← Read.accept '<' then return .plain (some (← groupName '>'))
        else if ← Read.accept '=' then return .back (← groupName ')')
        else Read.fail
      else if c = ':' then return .unnumbered
      else if c = '#' then return .comment
      else if c = '=' then return .look false false
      else if c = '!' then return .look false true
      else if c = '<' then
        if ← Read.accept '=' then return .look true false
        else if ← Read.accept '!' then return .look true true
        else Read.fail
      else if c = '(' then return .condition
      else if c = '>' then return .atomic
      else if (flagOf? c).isSome || c = '-' then return .flags (← flagGroup c)
      else Read.fail
    | _ => Read.fail

/-- how deep groups may stand in one another: two calls are made for each -/
def levelLimit : Nat := 500

mutual

/-- alternatives inside so many groups; on level zero they are the pattern as a whole -/
def alternatives : Nat → Nat → Bool → Read Node
  | 0, _, _ => Read.fail
  | fuel + 1, level, verbose => do
    if levelLimit ≤ level then throw .tooDeep
    let first ← items fuel level (level == 0) verbose []
    otherAlternatives fuel level verbose first

/-- the alternatives after the first -/
def otherAlternatives : Nat → Nat → Bool → Node → Read Node
  | 0, _, _, _ => Read.fail
  | fuel + 1, level, verbose, first => do
    if ← Read.accept '|' then
      let s ← get
      let verbose := if level == 0 then s.flags.verbose else verbose
      let next ← items fuel level false verbose []
      let rest ← otherAlternatives fuel level verbose next
      return .alt first rest
    else return first

/-- trees up to a bar, a closing bracket or the end; `isFirst` holds in the first alternative of the whole
pattern, where flags for the whole pattern may stand -/
def items : Nat → Nat → Bool → Bool → List Node → Read Node
  | 0, _, _, _, _ => Read.fail
  | fuel + 1, level, isFirst, verbose, done => do
    match ← Read.peek with
    | none => return sequence done
    | some (.escaped c) =>
      let _ ← Read.take
      items fuel level isFirst verbose ((← escape c) :: done)
    | some (.plain c) =>
      if c = '|' || c = ')' then return sequence done
      else
        let _ ← Read.take
        if verbose && isPatternBlank c then items fuel level isFirst verbose done
        else if verbose && c = '#' then
          let _ ← skipPast (.plain '\n')
          items fuel level isFirst verbose done
        else if c = '[' then
          let negated ← Read.accept '^'
          let members ← setItems fuel []
          items fuel level isFirst verbose (.one (.oneOf negated members) :: done)
        else if c = '*' || c = '+' || c = '?' || c = '\x7b' then
          match ← bounds? c with
          | none => items fuel level isFirst verbose (literal c.toNat :: done)
          | some (least, most) => items fuel level isFirst verbose (← repeated least most done)
        else if c = '.' then items fuel level isFirst verbose (.one .anything :: done)
        else if c = '^' then items fuel level isFirst verbose (.place .lineStart :: done)
        else if c = '$' then items fuel level isFirst verbose (.place .lineEnd :: done)
        else if c = '(' then
          match ← opening with
          | .comment =>
            if ← skipPast (.plain ')') then items fuel level isFirst verbose done else Read.fail
          | .back name =>
            match (← get).names.find? (·.1 == name) with
            | some (_, i) => items fuel level isFirst verbose ((← reference i) :: done)
            | none => Read.fail
          | .flags (.whole f unicode) =>
            if isFirst && done.isEmpty then
              modify fun s => { s with flags := s.flags.union f, unicode := s.unicode || unicode }
              let s ← get
              items fuel level isFirst s.flags.verbose done
            else Read.fail
          | .flags (.inside on off sets) =>
            let body ← alternatives fuel (level + 1) ((verbose || on.verbose) && !off.verbose)
            Read.expect ')'
            items fuel level isFirst verbose (.group none on off sets body :: done)
          | .unnumbered =>
            let body ← alternatives fuel (level + 1) verbose
            Read.expect ')'
            items fuel level isFirst verbose (.group none Flags.none Flags.none false body :: done)
          | .atomic =>
            let body ← alternatives fuel (level + 1) verbose
            Read.expect ')'
            items fuel level isFirst verbose (.atomic body :: done)
          | .plain name =>
            let index ← openGroup name
            let body ← alternatives fuel (level + 1) verbose
            Read.expect ')'
            closeGroup index body
            items fuel level isFirst verbose (.group (some index) Flags.none Flags.none false body :: done)
          | .look false negated =>
            let body ← alternatives fuel (level + 1) verbose
            Read.expect ')'
            items fuel level isFirst verbose (.lookAhead negated body :: done)
          | .look true negated =>
            let outer := (← get).behind
            modify fun s => { s with behind := outer.or (some s.next) }
            let body ← alternatives fuel (level + 1) verbose
            modify fun s => { s with behind := outer }
            Read.expect ')'
            let w := (body.width (← get).closed).fixed?
            modify fun s => { s with wavering := s.wavering || w.isNone }
            items fuel level isFirst verbose (.lookBehind negated (w.getD 0) body :: done)
          | .condition =>
            let index ← conditionGroup
            checkBehind index
            if levelLimit ≤ level + 1 then throw .tooDeep
            let yes ← items fuel (level + 1) false verbose []
            let no ← if ← Read.accept '|' then items fuel (level + 1) false verbose [] else pure .empty
            Read.expect ')'
            items fuel level isFirst verbose (.ifGroup index yes no :: done)
        else items fuel level isFirst verbose (literal c.toNat :: done)

end

/-- the pattern of a text -/
def compile (text : List Char) : Except Refusal Compiled :=
  let (tokens, dangling) := Token.ofText text
  if tokens.isEmpty && dangling then .error .invalid
  else match (alternatives (3 * tokens.length + 3) 0 false).run
      ⟨tokens, dangling, 1, [], [], none, [], Flags.none, false, false⟩ with
    | .error e => .error e
    | .ok (root, s) =>
      if s.flags.ascii && s.unicode then .error .badValue
      else if s.tokens.isEmpty && s.asked.all (· < s.next) && !s.wavering then .ok ⟨s.flags, root⟩
      else .error .invalid

end Intake.Pattern
