import Summand.Description.Datum
import Summand.Log

/-!
# Described failures

A failure of the library can be described by the name of its kind and the data that its message
mentions. The data need not be of the kinds that the library itself would give; the failure keeps
them as they are, and its message tells each of them by its text.
-/

namespace Summand.Description

/-- A failure with data of any kind. -/
structure DescribedFailure where
  kind : String
  message : String
  /-- The data that the failure keeps, by name. -/
  attributes : List (String × Datum)

namespace DescribedFailure

/-- The least and the greatest number of data with which each kind is described. -/
def counts : List (String × Nat × Nat) :=
  [("TermoptError", 1, 2), ("RegistrationError", 1, 2), ("GraphError", 1, 2),
    ("EvaluationError", 1, 2), ("DimensionMismatchError", 2, 3),
    ("TransformDimensionMismatchError", 2, 2), ("InvalidBlockError", 1, 1),
    ("ArityMismatchError", 2, 2), ("UnknownVariableError", 1, 1),
    ("VariableDimensionMismatchError", 3, 3), ("HessianDisabledError", 0, 0),
    ("NullHessianTargetError", 0, 0), ("UnsupportedTransformError", 2, 2),
    ("TermEvaluationError", 3, 3), ("OutputShapeError", 3, 3), ("OutputTypeError", 2, 2),
    ("FunctionClosedError", 1, 1), ("ConfigError", 3, 3), ("StorageAllocationError", 2, 2)]

/-- The names that are taken but name no kind of failure. -/
def reserved : List String :=
  ["Any", "annotations"] ++
    (["annotations", "builtins", "cached", "class", "delattr", "dict", "dir", "doc", "eq", "file",
      "format", "ge", "getattribute", "getstate", "gt", "hash", "init", "init_subclass", "le",
      "loader", "lt", "name", "ne", "new", "package", "reduce", "reduce_ex", "repr", "setattr",
      "sizeof", "spec", "str", "subclasshook"].map fun name ↦ "__" ++ name ++ "__")

/-- The failure of describing a failure with too few or too many data. -/
def wrongCount : Failure := .raised "TypeError" "the number of values is wrong"

/-- The failure of describing a failure of a kind that there is not. -/
def unknownKind (kind : String) : Failure :=
  .raised "AttributeError" ("module '" ++ Log.packageName ++ ".core.errors' has no attribute '" ++
    kind ++ "'")

/-- The sentence about dimensions that do not fit, from the two of a variable and the two of a
transform. -/
def transformSentence (expected got : Datum) : Except Failure String := do
  let (user, solver) ← expected.pair
  let solver := if solver.isNull then none else some solver.text
  let input ← got.part 1
  let output ← got.part 0
  return Wording.transformMismatch user.text solver output.text input.text

/-- The sentence that tells a kind of failure with its data, and the names of those that it
keeps, an empty one for data that are only told. -/
def sentence (kind : String) (data : List Datum) : Except Failure (String × List String) := do
  let datum (k : Nat) : Datum := data.getD k (.plain .null)
  let text (k : Nat) : String := (datum k).text
  match kind with
  | "DimensionMismatchError" =>
    return (Wording.dimensionMismatch (text 0) (text 1), ["recorded", "requested", "suggestion"])
  | "TransformDimensionMismatchError" =>
    return (← transformSentence (datum 0) (datum 1), ["expected", "got"])
  | "InvalidBlockError" => return (Wording.invalidBlock (text 0), [""])
  | "ArityMismatchError" =>
    return (Wording.arityMismatch (text 0) (text 1), ["arity", "received"])
  | "UnknownVariableError" => return (Wording.unknownVariable (text 0), ["position"])
  | "VariableDimensionMismatchError" =>
    return (Wording.argumentMismatch (text 0) (text 1) (text 2),
      ["position", "term_dimension", "variable_dimension"])
  | "HessianDisabledError" => return (Wording.hessianDisabled, [])
  | "NullHessianTargetError" => return (Wording.missingTarget, [])
  | "UnsupportedTransformError" =>
    return (Wording.unsupportedTransform (text 0) (text 1), ["operation", "variable_index"])
  | "TermEvaluationError" =>
    return (Wording.termFailed (text 0) (datum 1).typeName (datum 2).typeName (text 2),
      ["binding_index", "term", "original_error"])
  | "OutputShapeError" =>
    return (Wording.shapeMismatch (text 0) (text 1) (text 2), ["name", "expected", "got"])
  | "OutputTypeError" => return (Wording.unusableOutput (text 0) (text 1), ["name", "reason"])
  | "FunctionClosedError" => return (Wording.closed (text 0), ["operation"])
  | "ConfigError" =>
    return (Wording.invalidSetting (text 0) (datum 1).shown (text 2), ["setting", "value", ""])
  | "StorageAllocationError" => return (Wording.storage (text 0) (text 1), ["what", "shape"])
  | _ => return (text 0, ["", "suggestion"])

/-- The failure of a kind with its data. -/
def ofData (kind : String) (data : List Datum) : Except Failure DescribedFailure := do
  let (sentence, names) ← sentence kind data
  let kept := (names.zip data).filter fun entry ↦ !entry.1.isEmpty
  let hint : Datum :=
    match kept.lookup "suggestion" with
    | some given => given
    | none => .plain ((Wording.hint? kind).elim .null .text)
  return {
    kind
    message := Wording.withHint sentence (if hint.isTruthy then some hint.text else none)
    attributes := kept.filter (fun entry ↦ entry.1 != "suggestion") ++ [("suggestion", hint)] }

/-- The failure of giving something for a kind that names none. -/
def notKind : Failure := .raised "TypeError" "there is no such kind of failure"

/-- The failure of a kind with the data that JSON values describe, which have to be as many as the
kind takes. -/
def ofJson (kind values : Json) : Except Failure DescribedFailure := do
  let .text kind := kind | throw notKind
  if !reserved.contains kind && (counts.lookup kind).isNone then throw (unknownKind kind)
  let data ← Datum.listOf values
  match counts.lookup kind with
  | none => throw notKind
  | some (least, greatest) =>
    if data.length < least || greatest < data.length then throw wrongCount
    ofData kind data

/-- A failure's message, its data, and the names under which it can be handled. -/
def reported (f : DescribedFailure) : Json :=
  .object
    [("message", .text f.message),
      ("attributes", .object (f.attributes.map fun (name, datum) ↦ (name, datum.reported))),
      ("bases", .list ((Wording.lineage f.kind).map .text))]

end DescribedFailure

end Summand.Description
