import CanSniffer.Library.PyJson

namespace CanSniffer

open Library Library.PyText Library.PyJson

structure ExplicitPair where
  requestId : Int
  responseId : Int
  label : Json

structure PatternPair where
  requestBase : Int
  responseBase : Int
  labelTemplate : Json

namespace LatencyPairs

/-- What is in the pairs file: the text that `json.dumps(…, indent=2)` writes for a value, or
another text, with what `json.loads` makes of it. -/
inductive PairsFile
  | dumped (raw : Json)
  | foreign (text : String) (raw : Option Json)

/-- `json.loads(path.read_text())`; `none` is an exception. -/
def PairsFile.loads : PairsFile → Option Json
  | .dumped raw => some raw
  | .foreign _ raw => raw

abbrev Entry := List (String × Json)

def isPattern (e : Entry) : Bool :=
  match e.lookup "type" with
  | some (.str s) => s = "pattern"
  | _ => false

/-- An `int` of a value of the entry; `none` also for a missing key. -/
def idField (e : Entry) (key : String) : Option Int := (e.lookup key).bind Json.toInt

def defaultTemplate : String := "0x\x7bnode_id:02X\x7d"

/-- `format` for the default template, and for a text without braces. -/
def formatDefault (template : String) (nodeId : Nat) : Option String :=
  if template = defaultTemplate then some ("0x" ++ hexUpper 2 nodeId) else some template

def loadPattern (e : Entry) : Option PatternPair := do
  let requestBase ← idField e "request_base"
  let responseBase ← idField e "response_base"
  pure ⟨requestBase, responseBase, (e.lookup "label_template").getD (.str defaultTemplate)⟩

def defaultLabel (requestId responseId : Int) : Json :=
  .str ("0x" ++ hexInt requestId ++ "→0x" ++ hexInt responseId)

def loadExplicit (e : Entry) : Option ExplicitPair := do
  let requestId ← idField e "request_id"
  let responseId ← idField e "response_id"
  pure ⟨requestId, responseId, (e.lookup "label").getD (defaultLabel requestId responseId)⟩

/-- One pass of the loop of `load_pairs`; an entry that is not a dict has no `get`. -/
def loadEntry (acc : List ExplicitPair × List PatternPair) :
    Json → Option (List ExplicitPair × List PatternPair)
  | .obj e =>
    if isPattern e then (loadPattern e).map fun p => (acc.1, acc.2 ++ [p])
    else (loadExplicit e).map fun p => (acc.1 ++ [p], acc.2)
  | .null | .bool _ | .int _ | .float _ | .str _ | .arr _ => none

/-- The file may be missing. `none` is any of the exceptions. -/
def loadPairs : Option PairsFile → Option (List ExplicitPair × List PatternPair)
  | none => some ([], [])
  | some file => do
    let raw ← file.loads
    let entries ← raw.iterate
    entries.foldlM loadEntry ([], [])

def savePairs (rawList : List Json) : PairsFile := .dumped (.arr rawList)

def Acceptable : Json → Prop
  | .obj e =>
    if isPattern e then (idField e "request_base").isSome ∧ (idField e "response_base").isSome
    else (idField e "request_id").isSome ∧ (idField e "response_id").isSome
  | .null | .bool _ | .int _ | .float _ | .str _ | .arr _ => False

theorem loadEntry_isSome (acc : List ExplicitPair × List PatternPair) (entry : Json) :
    (loadEntry acc entry).isSome ↔ Acceptable entry := by
  cases entry with
  | obj e =>
    by_cases hp : isPattern e
    · simp only [loadEntry, Acceptable, if_pos hp, Option.isSome_map, loadPattern]
      cases idField e "request_base" <;> cases idField e "response_base" <;> simp
    · simp only [loadEntry, Acceptable, if_neg hp, Option.isSome_map, loadExplicit]
      cases idField e "request_id" <;> cases idField e "response_id" <;> simp
  | _ => simp [loadEntry, Acceptable]

theorem loadEntries_isSome (entries : List Json) (acc : List ExplicitPair × List PatternPair) :
    (entries.foldlM loadEntry acc).isSome ↔ ∀ e ∈ entries, Acceptable e := by
  induction entries generalizing acc with
  | nil => simp
  | cons e es ih =>
    rw [List.foldlM_cons, List.forall_mem_cons, ← loadEntry_isSome acc e]
    cases h : loadEntry acc e with
    | none => simp
    | some acc' => simpa using ih acc'

theorem loadPairs_savePairs (body : List Json) :
    (loadPairs (some (savePairs body))).isSome ↔ ∀ e ∈ body, Acceptable e :=
  loadEntries_isSome body ([], [])

end LatencyPairs
end CanSniffer
