/-
The plain form of declared values, which documents can hold.

Decimals, identifiers, dates, moments and times become their canonical texts, tuples become lists, mappings
become hashes with text keys, and all else stays. The declared type casts a canonical text back to the
value.
-/
import Intake.Fault

namespace Intake

namespace Value

mutual

/-- the plain form of a value -/
def canonical : Value → Outcome Value
  | .decimal d => .ok (.text (String.ofList d.text))
  | .uuid u => .ok (.text (String.ofList u.text))
  | .date d => .ok (.text (String.ofList d.text))
  | .moment m => .ok (.text (String.ofList m.text))
  | .time t => .ok (.text (String.ofList t.text))
  | .list xs => do .ok (.list (← canonicalAll xs))
  | .tuple xs => do .ok (.list (← canonicalAll xs))
  | .map _ es => do .ok (.map false (ofEntries (← canonicalEntries es)))
  | v => .ok v

def canonicalAll : List Value → Outcome (List Value)
  | [] => .ok []
  | x :: xs => do
    let y ← canonical x
    let ys ← canonicalAll xs
    .ok (y :: ys)

/-- the entries of a mapping under their keys' texts -/
def canonicalEntries : List (Value × Value) → Outcome (List (Value × Value))
  | [] => .ok []
  | (k, v) :: es => do
    let key ← k.plain
    let w ← canonical v
    let rest ← canonicalEntries es
    .ok ((.text key, w) :: rest)

end

end Value

end Intake
