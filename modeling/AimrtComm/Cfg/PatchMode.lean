import AimrtComm.Yaml.Basic

/-!
# Patch modes

A patch item says by its YAML tag what is to be done with the element it names.
`analyzePatchMode` splits the tag at `+` and turns its words into the flags of a `PatchMode`;
`hasExplicitOverridePatchMode` reads the tag of a whole section, which is `override` or nothing.
-/

namespace AimrtComm

/-! ### `utils::SplitTrim` -/

/-- The white space that `SplitTrim` strips: blank, `\t`, `\n`, `\v`, `\f` and `\r`. -/
def isSpace (c : Char) : Bool := [32, 9, 10, 11, 12, 13].contains c.toNat

/-- Remove white space at both ends. -/
def trim (s : List Char) : List Char :=
  ((s.dropWhile isSpace).reverse.dropWhile isSpace).reverse

/-- `utils::SplitTrim`: the items between separators, trimmed; blank items are left out. -/
def splitTrim (str : String) (separator : Char) : List String :=
  (((str.toList.splitOn separator).map trim).filter (· ≠ [])).map String.ofList

/-- `starts_with`. -/
def startsWith (word key : String) : Bool := key.toList.isPrefixOf word.toList

/-- `substr(key.length())`. -/
def substrAfter (word key : String) : String := String.ofList (word.toList.drop key.toList.length)

namespace Cfg

open Yaml PatchMode

/-! ### Tags -/

def basicTagPrefix : String := "tag:yaml.org,2002:"

/-- `ExtractCustomTag`: what follows the prefix of the `!!` tags. -/
def extractCustomTag (node : Yaml) : String :=
  if startsWith node.tag basicTagPrefix then substrAfter node.tag basicTagPrefix else ""

/-- `HasExplicitOverridePatchMode`. -/
def hasExplicitOverridePatchMode (node : Yaml) : Except Error Bool :=
  if extractCustomTag node ≠ "" then
    if extractCustomTag node = "override" then .ok true
    else .error (.unsupportedMode node node.tag)
  else .ok false

/-! ### `AnalyzePatchMode` -/

/-- The lambda `check_if_multiple_define_mode`. -/
def checkIfMultipleDefineMode (node : Yaml) (modes mode : PatchMode) : Except Error Unit :=
  if modes.has mode then .error (.multipleMode node mode) else .ok ()

/-- One turn of the loop over the words of a tag. -/
def analyzeWord (node : Yaml) (modes : PatchMode) (word : String) : Except Error PatchMode := do
  if word = "delete" then
    checkIfMultipleDefineMode node modes delete
    return modes.or delete
  else if word = "skip" then
    checkIfMultipleDefineMode node modes skip
    return modes.or skip
  else if startsWith word "new" then
    checkIfMultipleDefineMode node modes newFront
    checkIfMultipleDefineMode node modes newBack
    checkIfMultipleDefineMode node modes newNever
    let wordOption := substrAfter word "new"
    if wordOption = "" ∨ wordOption = ".front" then return modes.or newFront
    else if wordOption = ".back" then return modes.or newBack
    else if wordOption = ".never" then return modes.or newNever
    else throw (.unsupportedMode node word)
  else if startsWith word "override" then
    checkIfMultipleDefineMode node modes override
    checkIfMultipleDefineMode node modes overrideFront
    checkIfMultipleDefineMode node modes overrideBack
    let wordOption := substrAfter word "override"
    if wordOption = "" then return modes.or override
    else if wordOption = ".front" then return modes.or overrideFront
    else if wordOption = ".back" then return modes.or overrideBack
    else throw (.unsupportedMode node word)
  else if startsWith word "merge" then
    checkIfMultipleDefineMode node modes merge
    return modes.or merge
  else throw (.unsupportedMode node word)

/-- The checks after the loop: a lone `new.never` overrides an element that is there, and
`delete`, `override` and `skip` exclude each other. -/
def finishModes (node : Yaml) (modes : PatchMode) : Except Error PatchMode :=
  let modes := if modes = newNever then modes.or override else modes
  if (modes.has delete).toNat + (modes.has override).toNat + (modes.has skip).toNat > 1 then
    .error (.exclusiveModes node)
  else .ok (modes.or explicit)

/-- `AnalyzePatchMode`. -/
def analyzePatchMode (node : Yaml) : Except Error PatchMode :=
  if extractCustomTag node = "" then .ok override
  else do
    let modes ← (splitTrim (extractCustomTag node) '+').foldlM (analyzeWord node) .undefined
    finishModes node modes

/-! ### Error texts -/

/-- `rfl::enum_to_string` of a single flag. -/
def modeName (mode : PatchMode) : String :=
  if mode = override then "Override"
  else if mode = overrideFront then "OverrideFront"
  else if mode = overrideBack then "OverrideBack"
  else if mode = skip then "Skip"
  else if mode = newFront then "NewFront"
  else if mode = newBack then "NewBack"
  else if mode = newNever then "NewNever"
  else if mode = delete then "Delete"
  else if mode = explicit then "Explicit"
  else "Merge"

/-- The text of a panic; `place` gives the `path:line:column` of a node. -/
def Error.message (place : Yaml → String) : Error → String
  | unsupportedMode node mode => "unsupported AimRTe cfg mode [" ++ mode ++ "] at " ++ place node
  | multipleMode node mode =>
    "multiple define AimRTe cfg mode [" ++ modeName mode ++ "] at " ++ place node
  | exclusiveModes node =>
    "AimRTe cfg mode 'delete', 'override', and 'skip' CANNOT be used together ! please correct it at "
      ++ place node
  | nonExisted item =>
    "patch non-existed AimRTe cfg node, maybe use !!new or !!new.never for " ++ place item
  | existed item =>
    "same config existed, you should specify override, skip, or delete mode for " ++ place item
  | badConversion => "bad conversion"
  | badSubscript => "operator[] call on a scalar"
  | invalidNode =>
    "invalid node; this may result from using a map iterator as a sequence iterator, or vice-versa"
  | assertion => "Assertion failed"

end Cfg

end AimrtComm
