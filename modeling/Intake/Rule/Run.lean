/-
Running rules: the messages that a casted value draws from each rule.

Main definitions: one function for each kind of rule, `Rule.run`, and `runRules`, which gathers the messages of
several rules in order.
-/
import Intake.Rule.Basic
import Intake.Rule.Call
import Intake.JsonSchema.Check

namespace Intake

open Intake.Text Intake.Number

/-- a rule's own message, unless there is none or it is empty -/
def ownMessage (message : Option Value) : Option Value := message.filter Value.truthy

/-- a rule's own message, or else the usual one -/
def messageOr (message : Option Value) (usual : Outcome String) : Outcome Value :=
  match ownMessage message with
  | some m => .ok m
  | none => usual.map .text

def messageIf (broken : Bool) (message : Option Value) (usual : Outcome String) : Outcome (List Value) :=
  if broken then do .ok [← messageOr message usual] else .ok []

namespace Numericality

/-- the decimal by which a number is compared with a decimal: binary numbers by their shortest text, and
integers by their text, which may be too long -/
def widened (v : Value) : Outcome Decimal :=
  match v with
  | .int n => if (intText? n).isSome then .ok (Decimal.ofInt n) else .error .badValue
  | .float x => Cast.orBad (Decimal.ofText? x.text)
  | .decimal d => .ok d
  | _ => .error .illTyped

def isDecimal : Value → Bool
  | .decimal _ => true
  | _ => false

/-- the order of a number and a bound. If either is a decimal both are taken as decimals; two others are
compared exactly -/
def compare (number bound : Value) : Outcome Ordering := do
  let (a, b) ←
    if isDecimal number || isDecimal bound then do
      let a ← widened number
      let b ← widened bound
      pure (a, b)
    else Cast.orBad (number.numeric?.bind fun a => bound.numeric?.map fun b => (a, b))
  Cast.orBad (a.compare? b)

/-- a bound in a message: a whole binary number without its point -/
def boundText (v : Value) : Outcome String :=
  match v with
  | .float x => if x.isWhole then (Value.int (x.truncate?.getD 0)).plain else v.plain
  | v => v.plain

def isWhole : Value → Bool
  | .float x => x.isWhole
  | .decimal d => d.isWhole
  | _ => true

/-- the remainder of a whole number by two; a decimal with a positive exponent is a multiple of ten -/
def parity : Value → Int
  | .int n => n % 2
  | .float x => (x.truncate?.getD 0) % 2
  | .decimal d => match d with
    | .finite _ _ e => if 0 < e then 0 else (d.truncate?.getD 0) % 2
    | _ => 0
  | _ => 0

def checkBound (r : Numericality) (number : Value) (b : Comparison × Value) : Outcome (List Value) := do
  let o ← compare number b.2
  messageIf (!b.1.holds o) r.message do .ok ("must be " ++ b.1.words ++ " " ++ (← boundText b.2))

/-- the messages of a rule about numbers -/
def run (r : Numericality) (v : Value) : Outcome (List Value) := do
  match asNumber v with
  | none => messageIf true r.message (.ok "is not a number")
  | some number =>
    let whole := isWhole number
    if r.onlyInteger && !whole then messageIf true r.message (.ok "must be an integer")
    else
      let bounds ← r.bounds.mapM (r.checkBound number)
      let odd ← messageIf (r.odd && !(whole && parity number == 1)) r.message (.ok "must be odd")
      let even ← messageIf (r.even && !(whole && parity number == 0)) r.message (.ok "must be even")
      .ok (bounds.flatten ++ odd ++ even)

end Numericality

namespace LengthBounds

/-- the size of a value: its elements or characters, or else those of its text -/
def sizeOf (v : Value) : Outcome Nat :=
  match v with
  | .range a b s => if Value.maxSize < Value.rangeSize a b s then .error .outOfRange else .ok (Value.rangeSize a b s)
  | v =>
    match v.size? with
    | some n => .ok n
    | none => v.plain.map String.length

def words (before : String) (bound : Int) (after : String) : Outcome String := do
  .ok (before ++ (← (Value.int bound).plain) ++ after)

/-- the message of one bound, if it is declared and broken -/
def checkBound (message : Option Value) (bound : Option Int) (broken : Int → Bool) (before after : String) :
    Outcome (List Value) :=
  match bound with
  | none => .ok []
  | some b => messageIf (broken b) message (words before b after)

def run (r : LengthBounds) (v : Value) : Outcome (List Value) := do
  let n : Int ← sizeOf v
  let exact ← checkBound r.message r.exactly (n != ·) "is the wrong length (should be " " characters)"
  let short ← checkBound r.message r.minimum (n < ·) "is too short (minimum is " " characters)"
  let long ← checkBound r.message r.maximum (· < n) "is too long (maximum is " " characters)"
  .ok (exact ++ short ++ long)

end LengthBounds

namespace Membership

/-- a value is among several; comparing a signaling datum with a number on the way is a fault -/
def among (v : Value) : List Value → Outcome Bool
  | [] => .ok false
  | x :: xs =>
    if v.signalsWith x && !v.isSameDatum x then .error .signaled
    else if v.same x then .ok true
    else among v xs

/-- a value is among those of the rule. A signaling datum cannot be compared with the first number of a range -/
def holds (r : Membership) (v : Value) : Outcome Bool :=
  match r.values with
  | .range a b s =>
    if Value.rangeSize a b s != 0 && v.signalsWith (.int a) then .error .signaled else .ok (v.inRange a b s)
  | values => among v (values.items?.getD [])

end Membership

namespace Rule

/-- nothing, a text of blanks, or a collection without elements -/
def isBlankValue : Value → Bool
  | .null => true
  | .text s | .textMember s => isBlankText s.toList
  | .list xs | .tuple xs | .set _ xs => xs.isEmpty
  | .map false es => es.isEmpty
  | _ => false

/-- the violations of a schema as messages, each after its place; a message of the rule replaces them all -/
def runSchema (r : SchemaRule) (v : Value) : Outcome (List Value) := do
  let found ← JsonSchema.check r.schema v
  match found, ownMessage r.message with
  | _ :: _, some m => .ok [m]
  | found, _ => .ok (found.map fun (path, message) =>
      let place := ".".intercalate path
      .text (if place = "" then message else place ++ ": " ++ message))

/-- the messages of a rule -/
def run (rule : Rule) (v : Value) : Outcome (List Value) :=
  match rule with
  | .numericality r => r.run v
  | .length r => r.run v
  | .format r => do
    let text ← v.plain
    messageIf (r.pattern.search text.toList == r.negated) r.message (.ok "is invalid")
  | .inclusion r => do messageIf (!(← r.holds v)) r.message (.ok "is not included in the list")
  | .exclusion r => do messageIf (← r.holds v) r.message (.ok "is reserved")
  | .presence message => messageIf (isBlankValue v) message (.ok "can't be blank")
  | .jsonSchema r => runSchema r v
  | .callback f => do answerMessages (← f.call v)

end Rule

def runRules (rules : List Rule) (v : Value) : Outcome (List Value) := do
  let all ← rules.mapM fun r => r.run v
  .ok all.flatten

end Intake
