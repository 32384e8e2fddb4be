import ConfigConnector.Krmtotf.TfToKrm
import ConfigConnector.Webhook.ImmutableFields

/- The templates of the service mappings: literal text with places for the values of
fields, alternatives and a group of them in brackets. -/
namespace ConfigConnector.Krmtotf

open K8s Webhook

/-- What a call comes to. It runs on if it has not returned within the calls below it that
it was given. -/
inductive Run (α : Type) where
  | returns (result : α)
  | panics
  | runsOn
  deriving DecidableEq

namespace Run

protected def bind {α β : Type} : Run α → (α → Run β) → Run β
  | returns result, next => next result
  | panics, _ => panics
  | runsOn, _ => runsOn

instance : Monad Run where
  pure := returns
  bind := Run.bind

@[simp] theorem returns_bind {α β : Type} (result : α) (next : α → Run β) :
    (returns result >>= next) = next result := rfl

theorem bind_eq_returns {α β : Type} {first : Run α} {next : α → Run β} {result : β} :
    first >>= next = returns result ↔
      ∃ value, first = returns value ∧ next value = returns result := by
  cases first with
  | returns value => simp
  | panics | runsOn => exact ⟨nofun, fun ⟨_, same, _⟩ => nomatch same⟩

end Run

/-- A `krmtotf.Resource`, with what is read of it where a template is expanded. The
outcomes of `GetResourceID` and of `getValueFromReference` are those of the state of the
cluster; a reference that is not in the spec is `none`. -/
structure Resource where
  resourceConfig : ResourceConfig
  resourceIDValueTemplate : List Char := []
  nameValueTemplate : List Char := []
  kind : String := ""
  name : String := ""
  annotations : StringMap := ∅
  spec : Fields := []
  statusOrObservedState : Fields := []
  getResourceID : Except GoError String
  getValueFromReference : ReferenceConfig → Except GoError (Option String)

/-- The characters `[0-9A-Za-z_.?]` of a field's name. -/
def isFieldChar (c : Char) : Bool := c.isAlphanum || c = '_' || c = '.' || c = '?'

/-- The name in the match of `fieldRegex` that the text starts with. -/
def placeName : List Char → Option (List Char)
  | '{' :: '{' :: rest =>
    let name := rest.takeWhile isFieldChar
    if name ≠ [] ∧ (rest.dropWhile isFieldChar).take 2 = ['}', '}'] then some name else none
  | _ => none

/-- A character of a text, or a match of `fieldRegex` in it. -/
inductive Piece where
  | text (c : Char)
  | place (name : List Char)
  deriving DecidableEq

def Piece.isPlace : Piece → Bool
  | text _ => false
  | place _ => true

/-- A text cut at the matches of `fieldRegex`, behind `skip` characters of a match. -/
def piecesFrom (skip : Nat) : List Char → List Piece
  | [] => []
  | c :: rest =>
    match skip with
    | skip + 1 => piecesFrom skip rest
    | 0 =>
      match placeName (c :: rest) with
      | some name => .place name :: piecesFrom (name.length + 3) rest
      | none => .text c :: piecesFrom 0 rest

def pieces (text : List Char) : List Piece := piecesFrom 0 text

/-- `fieldRegex.MatchString`. -/
def hasPlace (text : List Char) : Bool := (pieces text).any Piece.isPlace

/-- `strings.ReplaceAll`, behind `skip` characters of an occurrence. -/
def replaceFrom (old new : List Char) (skip : Nat) : List Char → List Char
  | [] => []
  | c :: rest =>
    match skip with
    | skip + 1 => replaceFrom old new skip rest
    | 0 =>
      if old.isPrefixOf (c :: rest) then new ++ replaceFrom old new (old.length - 1) rest
      else c :: replaceFrom old new 0 rest

/-- `strings.ReplaceAll` of a text that is not empty. -/
def replaceAll (old new text : List Char) : List Char := replaceFrom old new 0 text

def valuePlace : List Char := "\x7b\x7bvalue\x7d\x7d".toList

/-- A `(string, error)` that is returned. -/
abbrev Expanded : Type := Run (Except GoError (List Char))

/-- `ResolveValueTemplate`, where `expand` is `expandTemplate`. -/
def resolveValueTemplate (expand : List Char → Expanded) (template val : List Char) : Expanded :=
  if template = [] then .returns (.ok val)
  else
    let ret := replaceAll valuePlace val template
    if hasPlace ret then expand ret else .returns (.ok ret)

section Resolve

variable (expand : List Char → Expanded) (r : Resource)

def resolveResourceID : Expanded :=
  match r.getResourceID with
  | .error err => .returns (.error err)
  | .ok resourceID => resolveValueTemplate expand r.resourceIDValueTemplate resourceID.toList

def resolveNameMetadataMapping : Expanded :=
  if r.name = "" then .returns (.error (.plain "invalid empty value for name"))
  else resolveValueTemplate expand r.nameValueTemplate r.name.toList

def snakeCaseToKebabCase (s : String) : String :=
  String.ofList (s.toList.map fun c => if c = '_' then '-' else c)

def formatAnnotation (annotationName : String) : String :=
  "cnrm.cloud.google.com/" ++ annotationName

/-- A string field of the spec or the status; the accessor's error is dropped. -/
def nestedText (fields : Fields) (path : List String) : Option String :=
  match (Value.map fields).nestedString path with
  | .ok val => val
  | .error _ => none

/-- The value of an annotation that a field is read from. -/
def annotationText (key : String) (isRequired : Bool) : Except GoError (List Char) :=
  let val := (r.annotations.lookup key).getD ""
  if val = "" ∧ isRequired then
    .error (.plain ("no value found for annotation " ++ key))
  else .ok val.toList

/-- The value of a field that is neither mapped nor a reference: it is looked up in the
spec and in the status. -/
def resolveInObject (field : String) (isRequired : Bool) : Except GoError (List Char) :=
  let path := Text.snakeCaseToLowerCamelCase field
  match nestedText r.spec (Text.components path) with
  | some val => .ok val.toList
  | none =>
    match nestedText r.statusOrObservedState (Text.components path) with
    | some val => .ok val.toList
    | none =>
      -- the project of a resource that the Declarative Client Library manages
      match (if path = "project" ∧ r.kind = "NetworkSecurityClientTLSPolicy" then
          nestedText r.spec ["projectRef", "external"] else none) with
      | some val => .ok val.toList
      | none =>
        if isRequired then
          .error (.plain ("unable to resolve missing value: " ++ field))
        else .ok []

/-- `resolveFunc` behind the mappings of the metadata. A container's type that is not known
is a panic. -/
def resolveUnmapped (field : String) (isRequired : Bool) : Expanded :=
  let rc := r.resourceConfig
  let located := field = "region" ∧ rc.locationality = "regional" ∨
    field = "zone" ∧ rc.locationality = "zonal"
  match (if located then nestedText r.spec ["location"] else none) with
  | some val => .returns (.ok val.toList)
  | none =>
    match (if supportsHierarchicalReferences rc then none
        else rc.containers.find? fun c => field == c.tfField) with
    | some c =>
      match getAnnotationForContainerType c.type with
      | none => .panics
      | some annotation => .returns (annotationText r annotation isRequired)
    | none =>
      if rc.directives.contains field then
        let key := formatAnnotation (snakeCaseToKebabCase field)
        .returns (annotationText r key isRequired)
      else .returns (resolveInObject r field isRequired)

/-- `resolveFunc` at a field, which gives its value or sets `resolutionError`. -/
def resolveField (field : String) (isRequired : Bool) : Expanded := do
  let rc := r.resourceConfig
  match isReferenceField field rc with
  | some refConfig =>
    match r.getValueFromReference refConfig with
    | .error err => .returns (.error (.wrap "error getting value from reference: " err))
    | .ok none =>
      if isRequired then
        .returns (.error (.plain ("required reference '" ++ field ++
          "' could not be found in spec")))
      else .returns (.ok [])
    | .ok (some val) => .returns (.ok val.toList)
  | none =>
    if field = rc.resourceIDTargetField then
      return (← resolveResourceID expand r).mapError (.wrap "error resolving resource ID: ")
    else if field = rc.metadataMapping.name then
      return (← resolveNameMetadataMapping expand r).mapError
        (.wrap "error resolving metadata name mapping value: ")
    else if field = rc.metadataMapping.labels then
      .returns (.error (.plain ("cannot map labels (map[string]string) to string field '" ++
        field ++ "'")))
    else resolveUnmapped r field isRequired

/-- `resolveFunc`: a field whose name has a question mark behind it is optional. -/
def resolveFunc (place : List Char) : Expanded :=
  if place.getLast? = some '?' then resolveField expand r (String.ofList place.dropLast) false
  else resolveField expand r (String.ofList place) true

end Resolve

/-- `ReplaceAllStringFunc`: the text with the places' values, and the last error that
`resolutionError` was set to. A place that cannot be resolved leaves nothing. -/
def expandPieces (resolve : List Char → Expanded) : List Piece → Run (List Char × Option GoError)
  | [] => return ([], none)
  | .text c :: rest => do
    let (text, resolutionError) ← expandPieces resolve rest
    return (c :: text, resolutionError)
  | .place name :: rest => do
    let val ← resolve name
    let (text, resolutionError) ← expandPieces resolve rest
    match val with
    | .ok val => return (val ++ text, resolutionError)
    | .error err => return (text, resolutionError.or (some err))

def expandFieldTemplate (resolve : List Char → Expanded) (template : List Char) : Expanded := do
  match ← expandPieces resolve (pieces template) with
  | (text, none) => return .ok text
  | (_, some resolutionError) => return .error resolutionError

def expandOrTemplate (expand : List Char → Expanded) (template : List Char) : Expanded :=
  match Text.split '|' template with
  | [t1, t2] => do
    match ← expand t1 with
    | .ok result => return .ok result
    | .error _ =>
      match ← expand t2 with
      | .ok result => return .ok result
      | .error err =>
        return .error (.wrap "error resolving both sides of an '|' template: " err)
  | templates =>
    .returns (.error (.plain ("unexpected template format: after splitting on '|' there are '" ++
      toString templates.length ++ "' templates when 2 were expected")))

/-- `strings.LastIndex` of one character. -/
def lastIndex (c : Char) (text : List Char) : Option Nat :=
  (text.reverse.idxOf? c).map fun behind => text.length - 1 - behind

/-- `expandTemplate`, with `depth` calls of itself one in another. -/
def expandTemplate (r : Resource) : Nat → List Char → Expanded
  | 0, _ => .runsOn
  | depth + 1, template =>
    match template.idxOf? '[' with
    | none =>
      if template.contains '|' then expandOrTemplate (expandTemplate r depth) template
      else expandFieldTemplate (resolveFunc (expandTemplate r depth) r) template
    | some leftBracketIdx =>
      match lastIndex ']' template with
      | none =>
        .returns (.error (.plain ("template '" ++ String.ofList template ++
          "' has a left bracket but is missing corresponding right bracket")))
      | some rightBracketIdx =>
        -- the bounds of a slice are out of range
        if rightBracketIdx < leftBracketIdx + 1 then .panics
        else do
          let subTemplate := (template.take rightBracketIdx).drop (leftBracketIdx + 1)
          match ← expandTemplate r depth subTemplate with
          | .error err => return .error (.wrap "error resolving sub-template: " err)
          | .ok result =>
            expandTemplate r depth (template.take leftBracketIdx ++ result ++
              template.drop (rightBracketIdx + 1))

end ConfigConnector.Krmtotf
