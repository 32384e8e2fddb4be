import ConfigConnector.Text.Case

/- Links to compute resources in the forms in which they are written. -/
namespace ConfigConnector.Refs

open List

/-- The prefixes are tried one after the other, each on what the ones before it have left. -/
def computePrefixes : List String := [
  "https://compute.googleapis.com/compute/v1/",
  "https://compute.googleapis.com/compute/beta/",
  "https://compute.googleapis.com/compute/v1beta1/",
  "https://compute.googleapis.com/",
  "https://www.googleapis.com/compute/v1/",
  "https://www.googleapis.com/compute/beta/",
  "https://www.googleapis.com/compute/v1beta1/",
  "https://www.googleapis.com/",
  "http://compute.googleapis.com/compute/v1/",
  "http://compute.googleapis.com/compute/beta/",
  "http://compute.googleapis.com/compute/v1beta1/",
  "http://compute.googleapis.com/",
  "http://www.googleapis.com/compute/v1/",
  "http://www.googleapis.com/compute/beta/",
  "http://www.googleapis.com/compute/v1beta1/",
  "http://www.googleapis.com/",
  "//compute.googleapis.com/compute/v1/",
  "//compute.googleapis.com/compute/beta/",
  "//compute.googleapis.com/compute/v1beta1/",
  "//compute.googleapis.com/",
  "//www.googleapis.com/compute/v1/",
  "//www.googleapis.com/compute/beta/",
  "//www.googleapis.com/compute/v1beta1/",
  "//www.googleapis.com/",
  "compute/v1/",
  "compute/beta/",
  "compute/v1beta1/",
  "/compute.googleapis.com/"]

def trimPrefix (start ref : List Char) : List Char :=
  if start.isPrefixOf ref then ref.drop start.length else ref

/-- The rule for links that start with `compute/`: a version that is not known stays. -/
def trimVersion (ref : List Char) : List Char :=
  match Text.split '/' ref with
  | first :: version :: rest =>
    if first = "compute".toList then
      if version = "v1".toList ∨ version = "v1beta1".toList ∨ version = "beta".toList then
        ['/'].intercalate rest
      else ['/'].intercalate (version :: rest)
    else ref
  | _ => ref

def trimComputeURIPrefix (ref : List Char) : List Char :=
  trimPrefix ['/'] (trimVersion
    (computePrefixes.foldl (fun ref start => trimPrefix start.toList ref) ref))

section Links

inductive Scheme where
  | https
  | http
  | none
deriving DecidableEq

def Scheme.text : Scheme → String
  | https => "https:"
  | http => "http:"
  | none => ""

inductive Service where
  | compute
  | www
deriving DecidableEq

def Service.text : Service → String
  | compute => "//compute.googleapis.com/"
  | www => "//www.googleapis.com/"

/-- A link starts with an URL, or with the path of the service alone. -/
inductive Host where
  | url (scheme : Scheme) (service : Service)
  | path
deriving DecidableEq

def Host.text : Host → List Char
  | url scheme service => scheme.text.toList ++ service.text.toList
  | path => "/compute.googleapis.com/".toList

/-- The versions that are known. -/
inductive Version where
  | v1
  | beta
  | v1beta1
deriving DecidableEq

def Version.name : Version → List Char
  | v1 => "v1".toList
  | beta => "beta".toList
  | v1beta1 => "v1beta1".toList

def Version.text (version : Version) : List Char :=
  "compute/".toList ++ version.name ++ ['/']

/-- A version that is none of them. -/
structure UnknownVersion where
  name : List Char
  present : name ≠ []
  plain : '/' ∉ name
  unknown : ∀ version : Version, name ≠ version.name

/-- A link to what is at `projects/` and a tail, in one of the forms that are trimmed. -/
structure Link where
  host : Option Host
  version : Option Version
  slash : Bool
  tail : List Char

namespace Link

def path (link : Link) : List Char := "projects/".toList ++ link.tail

def slashText (slash : Bool) : List Char := if slash then ['/'] else []

/-- What is written up to the tail. -/
def front (host : Option Host) (version : Option Version) (slash : Bool) : List Char :=
  host.elim [] Host.text ++ version.elim [] Version.text ++ slashText slash ++ "projects/".toList

def text (link : Link) : List Char := front link.host link.version link.slash ++ link.tail

/-- What stands behind an unknown version. -/
def rest (link : Link) : List Char := slashText link.slash ++ link.path

/-- The link with a version that is not known. -/
def textIn (link : Link) (version : UnknownVersion) : List Char :=
  link.host.elim [] Host.text ++ "compute/".toList ++ (version.name ++ '/' :: link.rest)

end Link

end Links

section Trimming

variable {start text : List Char} {starts : List String}

/-- Whether a prefix is there shows before the tail. -/
def shows (start text : List Char) : Bool := start.isPrefixOf text || !text.isPrefixOf start

variable (tail : List Char)

theorem trimPrefix_append (shown : shows start text) :
    trimPrefix start (text ++ tail) = trimPrefix start text ++ tail := by
  rw [shows, Bool.or_eq_true, Bool.not_eq_true'] at shown
  by_cases there : start.isPrefixOf text = true
  · have before := isPrefixOf_iff_prefix.mp there
    have whole := isPrefixOf_iff_prefix.mpr (before.trans (prefix_append text tail))
    rw [trimPrefix, trimPrefix, if_pos there, if_pos whole,
      drop_append_of_le_length before.length_le]
  · have other := shown.resolve_left there
    have absent : ¬ start.isPrefixOf (text ++ tail) := by
      intro whole
      have front := isPrefixOf_iff_prefix.mp whole
      rcases prefix_or_prefix_of_prefix front (prefix_append text tail) with first | second
      · exact there <| isPrefixOf_iff_prefix.mpr first
      · have longer := isPrefixOf_iff_prefix.mpr second
        rw [longer] at other
        cases other
    rw [trimPrefix, trimPrefix, if_neg there, if_neg absent]

/-- For all prefixes that are tried it is decided before the tail whether they are there. -/
def allDecided (decided : List Char → List Char → Bool) : List String → List Char → Bool
  | [], _ => true
  | start :: starts, text =>
    decided start.toList text && allDecided decided starts (trimPrefix start.toList text)

theorem trim_append {decided : List Char → List Char → Bool} {tail : List Char}
    (step : ∀ start text, decided start text →
      trimPrefix start (text ++ tail) = trimPrefix start text ++ tail)
    (all : allDecided decided starts text) :
    starts.foldl (fun ref start => trimPrefix start.toList ref) (text ++ tail) =
      starts.foldl (fun ref start => trimPrefix start.toList ref) text ++ tail := by
  induction starts generalizing text with
  | nil => rfl
  | cons start starts ih =>
    rw [allDecided, Bool.and_eq_true] at all
    rw [foldl_cons, foldl_cons, step _ _ all.1, ih all.2]

/-- The hosts of all links. -/
def hosts : List (Option Host) :=
  [none, some .path, some (.url .https .compute), some (.url .https .www),
    some (.url .http .compute), some (.url .http .www), some (.url .none .compute),
    some (.url .none .www)]

theorem mem_hosts (host : Option Host) : host ∈ hosts := by
  rcases host with _ | ⟨scheme, service⟩ | _
  · decide
  · cases scheme <;> cases service <;> decide
  · decide

def versions : List (Option Version) := [none, some .v1, some .beta, some .v1beta1]

theorem mem_versions (version : Option Version) : version ∈ versions := by
  rcases version with _ | version
  · decide
  · cases version <;> decide

/-- Of the front of every link the prefixes leave `projects/` and a slash before it, and behind
the path of the service the version. -/
theorem fronts_trimmed : ∀ host ∈ hosts, ∀ version ∈ versions, ∀ slash,
    allDecided shows computePrefixes (Link.front host version slash) ∧
    ∃ left ∈ versions, computePrefixes.foldl (fun ref start => trimPrefix start.toList ref)
      (Link.front host version slash) = Link.front none left slash := by
  decide +kernel

theorem trimVersion_projects :
    trimVersion ("projects/".toList ++ tail) = "projects/".toList ++ tail := by
  have first : Text.split '/' ("projects/".toList ++ tail) =
      "projects".toList :: Text.split '/' tail :=
    (Text.split_append '/' "projects".toList tail).trans
      (by rw [Text.split_of_not_mem (by decide)]; rfl)
  rw [trimVersion, first]
  cases Text.split '/' tail <;> rfl

theorem trimVersion_slash : trimVersion ('/' :: tail) = '/' :: tail := by
  rw [trimVersion, Text.split, if_pos rfl]
  cases Text.split '/' tail <;> rfl

theorem split_compute {name : List Char} (plain : '/' ∉ name) :
    Text.split '/' ("compute/".toList ++ (name ++ '/' :: tail)) =
      "compute".toList :: name :: Text.split '/' tail := by
  refine (Text.split_append '/' "compute".toList (name ++ '/' :: tail)).trans ?_
  rw [Text.split_of_not_mem (by decide), Text.split_append, Text.split_of_not_mem plain]
  rfl

theorem trimVersion_known (version : Version) : trimVersion (version.text ++ tail) = tail := by
  have plain : '/' ∉ version.name := by cases version <;> decide
  have known : version.name = "v1".toList ∨ version.name = "v1beta1".toList ∨
      version.name = "beta".toList := by cases version <;> decide
  have whole : version.text ++ tail = "compute/".toList ++ (version.name ++ '/' :: tail) :=
    (append_assoc _ _ _).trans (append_assoc _ _ _)
  rw [whole, trimVersion, split_compute tail plain]
  dsimp only
  rw [if_pos rfl, if_pos known, Text.intercalate_split]

theorem trimVersion_unknown (version : UnknownVersion) :
    trimVersion ("compute/".toList ++ (version.name ++ '/' :: tail)) =
      version.name ++ '/' :: tail := by
  have unknown : ¬ (version.name = "v1".toList ∨ version.name = "v1beta1".toList ∨
      version.name = "beta".toList) := by
    rintro (same | same | same)
    · exact version.unknown .v1 same
    · exact version.unknown .v1beta1 same
    · exact version.unknown .beta same
  rw [trimVersion, split_compute tail version.plain]
  dsimp only
  rw [if_pos rfl, if_neg unknown]
  have joined := Text.intercalate_split '/' (version.name ++ '/' :: tail)
  rwa [Text.split_append, Text.split_of_not_mem version.plain] at joined

theorem trimVersion_front (version : Option Version) (slash : Bool) :
    trimVersion (Link.front none version slash ++ tail) =
      Link.slashText slash ++ "projects/".toList ++ tail := by
  cases version with
  | some version =>
    refine (congrArg _ ?_).trans (trimVersion_known _ version)
    simp [Link.front]
  | none =>
    cases slash with
    | true => exact trimVersion_slash _
    | false => exact trimVersion_projects tail

theorem trim_link (link : Link) : trimComputeURIPrefix link.text = link.path := by
  obtain ⟨shown, left, -, same⟩ :=
    fronts_trimmed link.host (mem_hosts _) link.version (mem_versions _) link.slash
  rw [trimComputeURIPrefix, Link.text, trim_append (fun _ _ => trimPrefix_append _) shown, same,
    trimVersion_front]
  cases link.slash <;> rfl

/-- A prefix that ends with a known version is not there before the tail, nor with it. -/
def showsOrKnown (start text : List Char) : Bool :=
  shows start text || [Version.v1, .beta, .v1beta1].any fun version =>
    start == text ++ (version.name ++ ['/'])

theorem trimPrefix_append_unknown (version : UnknownVersion) (decided : showsOrKnown start text) :
    trimPrefix start (text ++ (version.name ++ '/' :: tail)) =
      trimPrefix start text ++ (version.name ++ '/' :: tail) := by
  rcases (Bool.or_eq_true _ _).mp decided with shown | ends
  · exact trimPrefix_append _ shown
  · obtain ⟨known, -, same⟩ := any_eq_true.mp ends
    obtain rfl := beq_iff_eq.mp same
    have plain : '/' ∉ known.name := by cases known <;> decide
    have absent : ¬ text ++ (known.name ++ ['/']) <+: text ++ (version.name ++ '/' :: tail) := by
      rw [prefix_append_right_inj]
      rintro ⟨rest, same⟩
      rw [append_assoc, singleton_append] at same
      have words := congrArg (Text.split '/') same
      rw [Text.split_append, Text.split_append, Text.split_of_not_mem plain,
        Text.split_of_not_mem version.plain] at words
      exact version.unknown known (cons.inj words).1.symm
    have longer : ¬ text ++ (known.name ++ ['/']) <+: text := fun before => by
      have := before.length_le
      simp at this
    rw [trimPrefix, trimPrefix, if_neg (mt isPrefixOf_iff_prefix.mp absent),
      if_neg (mt isPrefixOf_iff_prefix.mp longer)]

theorem hosts_trimmed : ∀ host ∈ hosts,
    allDecided showsOrKnown computePrefixes (host.elim [] Host.text ++ "compute/".toList) ∧
    computePrefixes.foldl (fun ref start => trimPrefix start.toList ref)
      (host.elim [] Host.text ++ "compute/".toList) = "compute/".toList := by
  decide +kernel

theorem trim_unknown (link : Link) (version : UnknownVersion) :
    trimComputeURIPrefix (link.textIn version) = version.name ++ '/' :: link.rest := by
  obtain ⟨decided, left⟩ := hosts_trimmed link.host (mem_hosts _)
  rw [trimComputeURIPrefix, Link.textIn,
    trim_append (fun _ _ => trimPrefix_append_unknown _ version) decided, left,
    trimVersion_unknown]
  cases name : version.name with
  | nil => exact absurd name version.present
  | cons c rest =>
    have other : c ≠ '/' := fun same => version.plain (by simp [name, same])
    simp [trimPrefix, other.symm]

end Trimming

/-- Every link in a form with a known version or none is mapped to its path, which stays as it
is, and two links are mapped to the same text exactly if they have the same path. A version that is
not known stays before it. -/
theorem links_canonical (link other : Link) (version : UnknownVersion) :
    trimComputeURIPrefix link.text = link.path ∧
    trimComputeURIPrefix (trimComputeURIPrefix link.text) = trimComputeURIPrefix link.text ∧
    (trimComputeURIPrefix link.text = trimComputeURIPrefix other.text ↔
      link.path = other.path) ∧
    trimComputeURIPrefix (link.textIn version) = version.name ++ '/' :: link.rest := by
  have again : trimComputeURIPrefix link.path = link.path :=
    trim_link ⟨none, none, false, link.tail⟩
  rw [trim_link, trim_link, again]
  exact ⟨rfl, rfl, Iff.rfl, trim_unknown link version⟩

/-- A version that is not known stays, also a known one behind a slash, and of two slashes one is
left. -/
theorem unknown_version_stays :
    trimComputeURIPrefix "compute/alpha/projects/p".toList = "alpha/projects/p".toList ∧
    trimComputeURIPrefix "/compute/v1/projects/p".toList = "compute/v1/projects/p".toList ∧
    trimComputeURIPrefix (trimComputeURIPrefix "//projects/p".toList) ≠
      trimComputeURIPrefix "//projects/p".toList := by
  decide +kernel

end ConfigConnector.Refs
