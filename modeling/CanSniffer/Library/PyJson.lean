import CanSniffer.Library.Binary64
import CanSniffer.Library.PyText

namespace CanSniffer.Library.PyJson

open PyText

inductive PyFloat
  | finite (x : ℚ)
  | inf (negative : Bool)
  | nan
  deriving DecidableEq, Repr

/-- A value that `json.loads` returns. The keys of a dict are distinct. -/
inductive Json
  | null
  | bool (b : Bool)
  | int (n : Int)
  | float (x : PyFloat)
  | str (s : String)
  | arr (xs : List Json)
  | obj (entries : List (String × Json))

/-- A value as a key of a dict, where numbers go by their value: `True == 1 == 1.0`. -/
inductive DictKey
  | none
  | number (x : ℚ)
  | inf (negative : Bool)
  | nan
  | str (s : String)
  deriving DecidableEq, Repr

namespace Json

/-- `none` for a value that has no hash. All NaN of a document are one object. -/
def dictKey : Json → Option DictKey
  | null => some .none
  | bool b => some (.number (if b then 1 else 0))
  | int n => some (.number n)
  | float (.finite x) => some (.number x)
  | float (.inf negative) => some (.inf negative)
  | float .nan => some .nan
  | str s => some (.str s)
  | arr _ | obj _ => none

/-- `int(x, 16)` of a text and `int(x)` of anything else; `none` is an exception. -/
def toInt : Json → Option Int
  | str s => intBase16 s
  | int n => some n
  | bool b => some (if b then 1 else 0)
  | float (.finite x) => some (Binary64.trunc x)
  | float (.inf _) | float .nan | null | arr _ | obj _ => none

def iterate : Json → Option (List Json)
  | arr xs => some xs
  | obj entries => some (entries.map fun e => str e.1)
  | str s => some (s.toList.map fun c => str (String.singleton c))
  | null | bool _ | int _ | float _ => none

def truthy : Json → Bool
  | null => false
  | bool b => b
  | int n => n ≠ 0
  | float (.finite x) => x ≠ 0
  | float (.inf _) | float .nan => true
  | str s => s ≠ ""
  | arr xs => !xs.isEmpty
  | obj entries => !entries.isEmpty

end Json
end CanSniffer.Library.PyJson
