/- The error classes of controller/direct/maputils.go. -/
namespace ConfigConnector.Direct.ErrorCodes

/-- `codes.Code` of gRPC. -/
abbrev Code : Type := UInt32

namespace Code

def unknown : Code := 2

def notFound : Code := 5

end Code

/-- What one error of a chain is. A status is what its method `GRPCStatus` returns. -/
inductive ErrorKind where
  /-- `*apierror.APIError`; `HTTPCode()` is -1 for an error that has none. -/
  | apiError (httpCode : Int) (status : Option Code)
  | grpcError (status : Option Code)
  | other

/-- An error, and the errors that its method `Unwrap` returns. -/
inductive ErrorTree where
  | mk (kind : ErrorKind) (unwrapped : List ErrorTree)

namespace ErrorTree

variable {α : Type}

mutual

/-- `errors.As`: an error comes before those it wraps. -/
def as (target : ErrorKind → Option α) : ErrorTree → Option α
  | mk kind unwrapped => (target kind).or (asAny target unwrapped)

def asAny (target : ErrorKind → Option α) : List ErrorTree → Option α
  | [] => none
  | err :: rest => (err.as target).or (asAny target rest)

end

end ErrorTree

namespace ErrorKind

/-- The code of a `*apierror.APIError`. -/
def httpCode : ErrorKind → Option Int
  | apiError code _ => some code
  | _ => none

/-- What `GRPCStatus` returns, for errors with this method. -/
def grpcStatus : ErrorKind → Option (Option Code)
  | apiError _ status | grpcError status => some status
  | other => none

end ErrorKind

/-- `status.FromError`: the code of the status, if there is one. -/
def fromError (err : ErrorTree) : Option Code := (err.as ErrorKind.grpcStatus).join

/-- `status.Code`. -/
def grpcCode (err : ErrorTree) : Code := (fromError err).getD .unknown

/-- `HasHTTPCode`; a nil error is `none`. -/
def hasHTTPCode (err : Option ErrorTree) (code : Int) : Bool :=
  match err with
  | none => false
  | some err =>
    match err.as ErrorKind.httpCode with
    | some httpCode =>
      if httpCode = code then true
      else if httpCode = -1 then grpcCode err == .notFound
      else false
    | none =>
      match fromError err with
      | some status => status == .notFound && code == 404
      | none => false

variable (err : Option ErrorTree)

def isPermissionDenied : Bool := hasHTTPCode err 403

def isNotFound : Bool := hasHTTPCode err 404

def isBadRequest : Bool := hasHTTPCode err 400

/-- An API error without an HTTP code that has the gRPC code for a missing resource. -/
def WithoutCodeNotFound : Prop :=
  ∃ tree, err = some tree ∧ tree.as ErrorKind.httpCode = some (-1) ∧ grpcCode tree = .notFound

variable {err}

/-- Such an error has every HTTP code. -/
theorem WithoutCodeNotFound.hasHTTPCode (found : WithoutCodeNotFound err) (code : Int) :
    hasHTTPCode err code := by
  obtain ⟨tree, rfl, noCode, status⟩ := found
  simp [ErrorCodes.hasHTTPCode, noCode, status]

/-- Any other error has at most one. -/
theorem hasHTTPCode_unique (exact : ¬ WithoutCodeNotFound err) {c d : Int}
    (first : hasHTTPCode err c) (second : hasHTTPCode err d) : c = d := by
  cases err with
  | none => cases first
  | some tree =>
    simp only [hasHTTPCode] at first second
    cases found : tree.as ErrorKind.httpCode with
    | none =>
      cases status : fromError tree with
      | none => simp [found, status] at first
      | some code =>
        simp only [found, status, Bool.and_eq_true, beq_iff_eq] at first second
        exact first.2.trans second.2.symm
    | some httpCode =>
      have coded : httpCode = -1 → grpcCode tree ≠ .notFound := by
        rintro rfl status
        exact exact ⟨tree, rfl, found, status⟩
      have same : ∀ code, (if httpCode = code then true
          else if httpCode = -1 then grpcCode tree == .notFound else false) = true →
            httpCode = code := by
        intro code
        by_cases here : httpCode = code
        · exact fun _ => here
        by_cases none : httpCode = -1
        · simp [none, coded none]
        · simp [here, none]
      rw [found] at first second
      exact (same c first).symm.trans (same d second)

/-- No two of the classes, and no two codes. -/
def Exclusive (err : Option ErrorTree) : Prop :=
  (¬ (isNotFound err ∧ isPermissionDenied err) ∧ ¬ (isNotFound err ∧ isBadRequest err) ∧
    ¬ (isPermissionDenied err ∧ isBadRequest err)) ∧
  ∀ c d, c ≠ d → ¬ (hasHTTPCode err c ∧ hasHTTPCode err d)

/-- The classes are exclusive but for an API error without an HTTP code that says in gRPC's
terms that there is no such resource: that error is of every class. -/
theorem exclusive_iff (err : Option ErrorTree) : Exclusive err ↔ ¬ WithoutCodeNotFound err := by
  constructor
  · intro exclusive found
    exact exclusive.2 0 1 (by decide) ⟨found.hasHTTPCode 0, found.hasHTTPCode 1⟩
  · intro exact
    have apart : ∀ c d, c ≠ d → ¬ (hasHTTPCode err c ∧ hasHTTPCode err d) :=
      fun c d differ both => differ (hasHTTPCode_unique exact both.1 both.2)
    exact ⟨⟨apart 404 403 (by decide), apart 404 400 (by decide), apart 403 400 (by decide)⟩, apart⟩

/-- The error that a client on gRPC returns for a missing resource, wrapped once. -/
def missingOverGrpc : ErrorTree := .mk .other [.mk (.apiError (-1) (some .notFound)) []]

theorem missing_in_every_class :
    isNotFound (some missingOverGrpc) = true ∧ isPermissionDenied (some missingOverGrpc) = true ∧
      isBadRequest (some missingOverGrpc) = true ∧ ¬ Exclusive (some missingOverGrpc) := by
  have found : WithoutCodeNotFound (some missingOverGrpc) := ⟨missingOverGrpc, rfl, rfl, rfl⟩
  exact ⟨found.hasHTTPCode 404, found.hasHTTPCode 403, found.hasHTTPCode 400,
    fun exclusive => exclusive.2 0 1 (by decide) ⟨found.hasHTTPCode 0, found.hasHTTPCode 1⟩⟩

end ConfigConnector.Direct.ErrorCodes
