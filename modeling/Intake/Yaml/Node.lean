/-
Nodes: the scalars, lists and mappings of a document, each with its tag.

A node without a tag of its own has the one that its spelling or its kind tells. A node can have an anchor, and
stands again wherever an alias names it. A reference to a node from inside itself is endless.

A text holds one document. What comes before it says which version of the format it is in, and what the handles
of tags stand for.

Main definition: `Node.ofText`.
-/
import Intake.Yaml.Token

namespace Intake.Yaml

/-- a part of a document -/
inductive Node where
  | scalar (tag : Tag) (text : List Char)
  | list (tag : Tag) (items : List Node)
  | mapping (tag : Tag) (entries : List (Node × Node))
  /-- a reference to a node from inside itself -/
  | endless

/-- the tokens that are left, and what names stand for -/
structure Builder where
  rest : List Token
  /-- finished nodes by anchor; one that is not finished has none -/
  anchors : List (String × Option Node)
  /-- what the handles of tags stand for -/
  handles : List (String × String)

abbrev Build := StateT Builder Scan

namespace Build

def peek : Build (Option Token) := do return (← get).rest.head?

def drop : Build Unit := modify fun b => { b with rest := b.rest.drop 1 }

def unexpected {α : Type} : Build α := do
  match ← peek with
  | some (.invalid t) => throw t
  | _ => throw .malformed

def nextIs (p : Token → Bool) : Build Bool := do return ((← peek).map p).getD false

/-- the next token, which must be of a kind, is passed over -/
def expect (p : Token → Bool) : Build Unit := do
  if ← nextIs p then drop else unexpected

end Build

namespace Token

def isKey : Token → Bool
  | .key => true
  | _ => false

def isValue : Token → Bool
  | .value => true
  | _ => false

def isItem : Token → Bool
  | .item => true
  | _ => false

def isComma : Token → Bool
  | .comma => true
  | _ => false

def isBlockEnd : Token → Bool
  | .blockEnd => true
  | _ => false

def isListEnd : Token → Bool
  | .flowListEnd => true
  | _ => false

def isMappingEnd : Token → Bool
  | .flowMappingEnd => true
  | _ => false

def isDocumentStart : Token → Bool
  | .documentStart => true
  | _ => false

def isDocumentEnd : Token → Bool
  | .documentEnd => true
  | _ => false

def isDirective : Token → Bool
  | .directive _ => true
  | _ => false

/-- ends an entry of a block mapping, or opens the next part of one -/
def endsBlockPart (t : Token) : Bool := t.isKey || t.isValue || t.isBlockEnd

def endsBareItem (t : Token) : Bool := t.isItem || t.endsBlockPart

def endsFlowPart (close : Token → Bool) (t : Token) : Bool := t.isComma || close t

end Token

/-! ## Properties -/

/-- the anchor and the tag before a node -/
structure Properties where
  anchor : Option String
  tag : Option TagText

def takeAnchor : Build (Option String) := do
  match ← Build.peek with
  | some (.anchor name) => do Build.drop; return some name
  | _ => return none

def takeTag : Build (Option TagText) := do
  match ← Build.peek with
  | some (.tag t) => do Build.drop; return some t
  | _ => return none

/-- the anchor and the tag, in any order -/
def takeProperties : Build Properties := do
  match ← takeAnchor with
  | some a => return ⟨some a, ← takeTag⟩
  | none => do
    match ← takeTag with
    | some t => return ⟨← takeAnchor, some t⟩
    | none => return ⟨none, none⟩

/-- the full name of a tag; a bare exclamation mark is none -/
def tagName (t : Option TagText) : Build (Option String) := do
  match t with
  | none => return none
  | some ⟨none, suffix⟩ => return some suffix
  | some ⟨some handle, suffix⟩ =>
    match (← get).handles.lookup handle with
    | some start => return some (start ++ suffix)
    | none => throw .malformed

/-- the tag of a collection, by its name or its kind -/
def collectionTag (name : Option String) (kind : Tag) : Tag :=
  match name with
  | none => kind
  | some n => if n = "!" then kind else Tag.ofName n

/-- the tag of a scalar, by its name, or by its spelling if it stands without quotes -/
def scalarTag (name : Option String) (isPlain : Bool) (text : List Char) : Tag :=
  match name with
  | none => if isPlain then Tag.ofPlain text else .text
  | some n => if n = "!" then Tag.ofPlain text else Tag.ofName n

def openAnchor (name : Option String) : Build Unit := do
  match name with
  | none => return
  | some a =>
    if (← get).anchors.any (·.1 == a) then throw .malformed
    modify fun b => { b with anchors := (a, none) :: b.anchors }

def closeAnchor (name : Option String) (n : Node) : Build Unit := do
  match name with
  | none => return
  | some a => modify fun b => { b with anchors := (a, some n) :: b.anchors }

def aliased (name : String) : Build Node := do
  match (← get).anchors.lookup name with
  | some (some n) => return n
  | some none => return .endless
  | none => throw .malformed

def emptyNode : Node := .scalar .null []

/-! ## Nodes -/

mutual

/-- a node; `inBlock` tells that it may be a block, and `bare` that it may be a list without indentation -/
def node (inBlock bare : Bool) : Nat → Build Node
  | 0 => Build.unexpected
  | fuel + 1 => do
    match ← Build.peek with
    | some (.alias name) => do Build.drop; aliased name
    | _ =>
      let p ← takeProperties
      let name ← tagName p.tag
      openAnchor p.anchor
      let n ← content inBlock bare name (p.anchor.isSome || p.tag.isSome) fuel
      closeAnchor p.anchor n
      return n

/-- a node after its properties -/
def content (inBlock bare : Bool) (name : Option String) (hasProperties : Bool) : Nat → Build Node
  | 0 => Build.unexpected
  | fuel + 1 => do
    match ← Build.peek with
    | some .item =>
      if bare then return .list (collectionTag name .list) (← bareItems fuel)
      else withoutContent name hasProperties
    | some (.scalar text isPlain) => do Build.drop; return .scalar (scalarTag name isPlain text) text
    | some .flowList => do Build.drop; return .list (collectionTag name .list) (← flowItems true fuel)
    | some .flowMapping => do Build.drop; return .mapping (collectionTag name .hash) (← flowEntries true fuel)
    | some .blockList =>
      if inBlock then do Build.drop; return .list (collectionTag name .list) (← blockItems fuel)
      else withoutContent name hasProperties
    | some .blockMapping =>
      if inBlock then do Build.drop; return .mapping (collectionTag name .hash) (← blockEntries fuel)
      else withoutContent name hasProperties
    | _ => withoutContent name hasProperties

/-- a node that has properties only; without any there is no node -/
def withoutContent (name : Option String) (hasProperties : Bool) : Build Node := do
  if hasProperties then return .scalar (scalarTag name true []) []
  else Build.unexpected

/-- a node, or an empty one before a token that ends it -/
def optional (inBlock bare : Bool) (ends : Token → Bool) : Nat → Build Node
  | 0 => Build.unexpected
  | fuel + 1 => do
    if ← Build.nextIs ends then return emptyNode else node inBlock bare fuel

/-- the items of a list in a block -/
def blockItems : Nat → Build (List Node)
  | 0 => Build.unexpected
  | fuel + 1 => do
    if ← Build.nextIs Token.isItem then
      Build.drop
      let n ← optional true false (fun t => t.isItem || t.isBlockEnd) fuel
      return n :: (← blockItems fuel)
    else
      Build.expect Token.isBlockEnd
      return []

/-- the items of a list that stands at the level of its key -/
def bareItems : Nat → Build (List Node)
  | 0 => Build.unexpected
  | fuel + 1 => do
    if ← Build.nextIs Token.isItem then
      Build.drop
      let n ← optional true false Token.endsBareItem fuel
      return n :: (← bareItems fuel)
    else return []

/-- the entries of a mapping in a block -/
def blockEntries : Nat → Build (List (Node × Node))
  | 0 => Build.unexpected
  | fuel + 1 => do
    if ← Build.nextIs Token.isKey then
      Build.drop
      let k ← optional true true Token.endsBlockPart fuel
      let v ← valueOf true true Token.endsBlockPart fuel
      return (k, v) :: (← blockEntries fuel)
    else
      Build.expect Token.isBlockEnd
      return []

/-- the value of an entry; without its mark it is empty -/
def valueOf (inBlock bare : Bool) (ends : Token → Bool) : Nat → Build Node
  | 0 => Build.unexpected
  | fuel + 1 => do
    if ← Build.nextIs Token.isValue then
      Build.drop
      optional inBlock bare ends fuel
    else return emptyNode

/-- an entry between brackets that its mark opens -/
def markedEntry (close : Token → Bool) : Nat → Build (Node × Node)
  | 0 => Build.unexpected
  | fuel + 1 => do
    Build.drop
    let k ← optional false false (fun t => t.isValue || t.endsFlowPart close) fuel
    let v ← valueOf false false (fun t => t.endsFlowPart close) fuel
    return (k, v)

/-- the items of a list between brackets; an entry among them is a mapping of its own -/
def flowItems (isFirst : Bool) : Nat → Build (List Node)
  | 0 => Build.unexpected
  | fuel + 1 => do
    if ← Build.nextIs Token.isListEnd then
      Build.drop
      return []
    if !isFirst then Build.expect Token.isComma
    if ← Build.nextIs Token.isKey then
      let e ← markedEntry Token.isListEnd fuel
      return .mapping .hash [e] :: (← flowItems false fuel)
    if ← Build.nextIs Token.isListEnd then
      Build.drop
      return []
    let n ← node false false fuel
    return n :: (← flowItems false fuel)

/-- the entries of a mapping between braces; a node alone is a key without a value -/
def flowEntries (isFirst : Bool) : Nat → Build (List (Node × Node))
  | 0 => Build.unexpected
  | fuel + 1 => do
    if ← Build.nextIs Token.isMappingEnd then
      Build.drop
      return []
    if !isFirst then Build.expect Token.isComma
    if ← Build.nextIs Token.isKey then
      let e ← markedEntry Token.isMappingEnd fuel
      return e :: (← flowEntries false fuel)
    if ← Build.nextIs Token.isMappingEnd then
      Build.drop
      return []
    let n ← node false false fuel
    return (n, emptyNode) :: (← flowEntries false fuel)

end

/-! ## Documents -/

def usualHandles : List (String × String) := [("!", "!"), ("!!", Tag.family)]

/-- what the directives before a document say, each thing once -/
def directives : List Token → List (String × String) → Bool → Scan (List (String × String))
  | .directive d :: rest, handles, versioned =>
    match d with
    | .version major => if versioned || major != 1 then malformed else directives rest handles true
    | .handle name start =>
      if handles.any (·.1 == name) then malformed else directives rest ((name, start) :: handles) versioned
    | .other => directives rest handles versioned
  | _, handles, _ => .ok (handles ++ usualHandles)

/-- the end of the text, after any marks of the end -/
def endOfText : List Token → Scan Unit
  | [] => .ok ()
  | .documentEnd :: rest => endOfText rest
  | .invalid t :: _ => .error t
  | _ => malformed

def document (fuel : Nat) : Build Node := do
  let n ← node true false fuel
  endOfText (← get).rest
  return n

/-- a token that ends a document without a node -/
def endsDocument (t : Token) : Bool := t.isDirective || t.isDocumentStart || t.isDocumentEnd

/-- the node of a document that a mark opens, which may be empty -/
def markedDocument (fuel : Nat) : Build Node := do
  Build.expect Token.isDocumentStart
  match ← Build.peek with
  | none => return emptyNode
  | some t =>
    if endsDocument t then
      endOfText (← get).rest
      return emptyNode
    else document fuel

/-- the node of the document in a text; nothing in a text without one -/
def Node.ofTokens (ts : List Token) : Scan (Option Node) := do
  let fuel := 4 * ts.length + 8
  match ts with
  | [] => .ok none
  | t :: _ =>
    if t.isDirective || t.isDocumentStart then do
      let handles ← directives ts [] false
      let (n, _) ← (markedDocument fuel).run ⟨ts.dropWhile Token.isDirective, [], handles⟩
      .ok (some n)
    else do
      let (n, _) ← (document fuel).run ⟨ts, [], usualHandles⟩
      .ok (some n)

def isDocumentChar (c : Char) : Bool :=
  let n := c.toNat
  n = 9 || n = 10 || n = 13 || (0x20 ≤ n && n ≤ 0x7e) || n = 0x85 || (0xa0 ≤ n && n != 0xfffe && n != 0xffff)

def Node.ofText (cs : List Char) : Scan (Option Node) :=
  if cs.all isDocumentChar then Node.ofTokens (tokens cs) else malformed

end Intake.Yaml
