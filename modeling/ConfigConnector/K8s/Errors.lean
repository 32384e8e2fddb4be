/- Go errors as the controllers look at them: the text of an error, and whether
an error of some class is anywhere below it. -/
namespace ConfigConnector.K8s

/-- The error types the controllers ask for. `plain` is every other error. -/
inductive ErrorClass where
  | referenceNotReady
  | referenceNotFound
  | secretNotFound
  | keyInSecretNotFound
  | transitiveDependencyNotFound
  | transitiveDependencyNotReady
  | serverGeneratedIDNotFound
  | iamNotFound
  | notFound
  | conflict
  | plain
  deriving DecidableEq, Repr

/-- An error of one class, or another error wrapped by `fmt.Errorf("text: %w", err)`. -/
inductive GoError where
  | leaf (cls : ErrorClass) (message : String)
  | wrap (text : String) (cause : GoError)
  deriving DecidableEq, Repr

namespace GoError

/-- `fmt.Errorf` without `%w`: only the text is kept. -/
def plain (message : String) : GoError := leaf .plain message

def error : GoError → String
  | leaf _ message => message
  | wrap text cause => text ++ ": " ++ cause.error

/-- `errors.As` for one class: the first error of that class down the chain. -/
def asClass (cls : ErrorClass) : GoError → Option GoError
  | leaf found message => if found = cls then some (leaf found message) else none
  | wrap _ cause => cause.asClass cls

def isClass (cls : ErrorClass) (err : GoError) : Bool := (err.asClass cls).isSome

end GoError

/-- What `k8s.NewResource` says of an object of kind `Status`: the status is a string. -/
def newResourceError : GoError :=
  .wrap "error unmarshalling into processed object"
    (.plain ("json: cannot unmarshal string into Go struct field Resource.status of type " ++
      "map[string]interface \x7b\x7d"))

/-- The first class of `classes` that an error is of, unwrapped. -/
def firstOf (err : GoError) : List ErrorClass → Option GoError
  | [] => none
  | cls :: rest => (err.asClass cls).or (firstOf err rest)

def causedByUnresolvableDeps (err : GoError) : Option GoError :=
  firstOf err [.referenceNotReady, .referenceNotFound, .secretNotFound, .keyInSecretNotFound,
    .transitiveDependencyNotFound, .transitiveDependencyNotReady]

/-- The key of a secret is not a resource that can be watched. -/
def causedByUnreadyOrNonexistentResourceRefs (err : GoError) : Bool :=
  (firstOf err [.referenceNotReady, .referenceNotFound, .transitiveDependencyNotFound,
    .transitiveDependencyNotReady, .secretNotFound]).isSome

def reasonForUnresolvableDeps (err : GoError) : Except GoError String :=
  if err.isClass .referenceNotReady || err.isClass .transitiveDependencyNotReady then
    .ok "DependencyNotReady"
  else if err.isClass .referenceNotFound || err.isClass .secretNotFound ||
      err.isClass .transitiveDependencyNotFound then
    .ok "DependencyNotFound"
  else if err.isClass .keyInSecretNotFound then
    .ok "DependencyInvalid"
  else
    .error (.wrap "unrecognized error caused by unresolvable dependencies" err)

end ConfigConnector.K8s
