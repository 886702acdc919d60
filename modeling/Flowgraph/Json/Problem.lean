import Flowgraph.Json.Malformed
import Flowgraph.Number.Layout
import Flowgraph.Text.Quoted
import Flowgraph.Time.Rfc3339

/-!
# Why a text is not a value of a type

Either the text is not JSON, or what it says does not fit the type. The second
kind of problem is a *mismatch*; what was found and what was wanted are kept
apart from the words for them.
-/

namespace Flowgraph

/-- What stands in a text, as far as a mismatch tells. -/
inductive Found where
  | null
  | bool (value : Bool)
  | integer (value : Int)
  | double (value : Double)
  | string (value : String)
  | sequence
  | map
  /-- The name of a variant without the content it needs. -/
  | bareVariant
  deriving DecidableEq

namespace Found

/-- What was found, in words. -/
def describe : Found → String
  | null => "null"
  | bool b => if b then "boolean `true`" else "boolean `false`"
  | integer n => s!"integer `{n}`"
  | double x =>
    "floating point `" ++ String.ofList (Layout.double.write x) ++ "`"
  | string s => "string " ++ Text.quote s
  | sequence => "sequence"
  | map => "map"
  | bareVariant => "unit variant"

end Found

/-- Why a JSON text is no value of the wanted type. -/
inductive Mismatch where
  | wrongType (found : Found) (wanted : String)
  | wrongValue (found : Found) (wanted : String)
  | wrongLength (length : Nat) (wanted : String)
  | missingField (name : String)
  | duplicateField (name : String)
  | unknownVariant (name : String) (known : List String)
  | time (fault : TimeFault)
  deriving DecidableEq

namespace Mismatch

/-- The names one of which is expected. -/
def choice : List String → String
  | [] => "there are no variants"
  | [a] => s!"expected `{a}`"
  | [a, b] => s!"expected `{a}` or `{b}`"
  | names =>
    "expected one of " ++
      String.intercalate ", " (names.map fun n => s!"`{n}`")

/-- The mismatch in words. -/
def message : Mismatch → String
  | wrongType found wanted =>
    s!"invalid type: {found.describe}, expected {wanted}"
  | wrongValue found wanted =>
    s!"invalid value: {found.describe}, expected {wanted}"
  | wrongLength length wanted => s!"invalid length {length}, expected {wanted}"
  | missingField name => s!"missing field `{name}`"
  | duplicateField name => s!"duplicate field `{name}`"
  | unknownVariant name known => s!"unknown variant `{name}`, {choice known}"
  | time fault => fault.message

end Mismatch

/-- Why a text is not a value of the wanted type. -/
inductive Problem where
  | malformed (fault : Malformed)
  | mismatch (mismatch : Mismatch)
  deriving DecidableEq

namespace Problem

/-- The problem in words. -/
def message : Problem → String
  | malformed fault => fault.message
  | mismatch m => m.message

end Problem

instance : Coe Malformed Problem := ⟨.malformed⟩
instance : Coe Mismatch Problem := ⟨.mismatch⟩

end Flowgraph
