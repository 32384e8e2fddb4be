import ConfigConnector.Text.Case

/- The files that resources are exported to. Texts are lists of runes. -/
namespace ConfigConnector.OutputSink

open List

/-- The characters that a file name keeps. -/
def isPlain (r : Char) : Bool :=
  ('0' ≤ r && r ≤ '9') || ('a' ≤ r && r ≤ 'z') || ('A' ≤ r && r ≤ 'Z') ||
    r == '_' || r == '-' || r == '.'

/-- `_%x`. -/
def escape (r : Char) : List Char := '_' :: Nat.toDigits 16 r.toNat

def makeSafeFilename (component : List Char) : List Char :=
  let s := component.flatMap fun r => if isPlain r then [r] else escape r
  if s.head? = some '.' then '_' :: s else s

section FilePath

/-- One component in `filepath.Clean`; the components that are kept, the last one first. -/
def cleanStep (rooted : Bool) (out : List (List Char)) (component : List Char) :
    List (List Char) :=
  if component = [] ∨ component = ['.'] then out
  else if component = ['.', '.'] then
    match out with
    | [] => if rooted then [] else [component]
    | last :: rest => if last = ['.', '.'] then component :: out else rest
  else component :: out

def clean (path : List Char) : List Char :=
  let rooted := path.head? = some '/'
  let out := ((Text.split '/' path).foldl (cleanStep rooted) []).reverse
  if rooted then '/' :: ['/'].intercalate out
  else if out = [] then ['.'] else ['/'].intercalate out

/-- `filepath.Join`. -/
def join (elem : List (List Char)) : List Char :=
  match elem.dropWhile (· = []) with
  | [] => []
  | rest => clean (['/'].intercalate rest)

end FilePath

def slugifyPath (filePath : List Char) : List Char :=
  join ((Text.split '/' filePath).map makeSafeFilename)

/-- The non-empty components of a file name. -/
def components (filePath : List Char) : List (List Char) :=
  (Text.split '/' filePath).filter (· ≠ [])

/-- The component is not hidden, and has only plain characters. -/
def isSafe (component : List Char) : Bool := component.head? ≠ some '.' && component.all isPlain

variable {component : List Char}

section Names

theorem plain_of_mem_toDigits (fuel n : Nat) (digits : List Char) (plain : digits.all isPlain) :
    (Nat.toDigitsCore 16 fuel n digits).all isPlain := by
  induction fuel generalizing n digits with
  | zero => simpa [Nat.toDigitsCore] using plain
  | succ fuel ih =>
    have digit : ∀ d < 16, isPlain (Nat.digitChar d) = true := by decide
    have here := digit (n % 16) (Nat.mod_lt _ (by decide))
    rw [Nat.toDigitsCore]
    split
    · simp [here, plain]
    · exact ih _ _ (by simp [here, plain])

theorem isSafe_makeSafeFilename (component : List Char) : isSafe (makeSafeFilename component) := by
  have plain : (component.flatMap fun r => if isPlain r then [r] else escape r).all isPlain := by
    rw [all_flatMap, all_eq_true]
    intro r _
    split
    · simpa
    · simpa [escape, show isPlain '_' = true by decide, Nat.toDigits] using
        all_eq_true.mp (plain_of_mem_toDigits _ _ [] rfl)
  rw [makeSafeFilename, isSafe]
  split
  · rw [all_cons, plain]
    rfl
  · rename_i shown
    simp [shown, plain]

theorem makeSafeFilename_eq_nil (component : List Char) :
    makeSafeFilename component = [] ↔ component = [] := by
  cases component with
  | nil => simp [makeSafeFilename]
  | cons r rest =>
    simp only [makeSafeFilename, flatMap_cons, escape]
    split <;> split <;> simp

theorem makeSafeFilename_of_isSafe (safe : isSafe component) :
    makeSafeFilename component = component := by
  rw [isSafe, Bool.and_eq_true, all_eq_true] at safe
  have same : (component.flatMap fun r => if isPlain r then [r] else escape r) = component := by
    rw [flatMap_def, map_congr_left fun r member => if_pos (safe.2 r member),
      ← flatMap_def, flatMap_singleton']
  rw [makeSafeFilename, same, if_neg (by simpa using safe.1)]

end Names

section Paths

variable {elem : List (List Char)} (safe : ∀ component ∈ elem, isSafe component)

include safe

theorem slash_not_mem (member : component ∈ elem) : '/' ∉ component := by
  intro slash
  have plain := safe component member
  rw [isSafe, Bool.and_eq_true, all_eq_true] at plain
  exact absurd (plain.2 _ slash) (by decide)

theorem split_intercalate (present : elem ≠ []) :
    Text.split '/' (['/'].intercalate elem) = elem := by
  induction elem with
  | nil => exact absurd rfl present
  | cons first rest ih =>
    have here := Text.split_of_not_mem (slash_not_mem safe (.head _))
    cases rest with
    | nil => simpa using here
    | cons second others =>
      rw [intercalate_cons_cons, append_assoc, singleton_append, Text.split_append,
        here, ih (fun component member => safe component (.tail _ member)) (cons_ne_nil _ _)]
      rfl

theorem cleaned (out : List (List Char)) :
    elem.foldl (cleanStep false) out = (elem.filter (· ≠ [])).reverse ++ out := by
  induction elem generalizing out with
  | nil => rfl
  | cons first rest ih =>
    have others := ih fun component member => safe component (.tail _ member)
    have here := safe first (.head _)
    rw [foldl_cons, others]
    by_cases empty : first = []
    · simp [cleanStep, empty]
    · have shown : first ≠ ['.'] ∧ first ≠ ['.', '.'] := by
        constructor <;> (rintro rfl; cases here)
      simp [cleanStep, empty, shown]

/-- Empty components are left out, and nothing else is cleaned. -/
theorem join_eq : join elem = ['/'].intercalate (elem.filter (· ≠ [])) := by
  induction elem with
  | nil => rfl
  | cons first rest ih =>
    cases first with
    | nil => exact ih fun component member => safe component (.tail _ member)
    | cons r first =>
      have notSlash : r ≠ '/' := by
        rintro rfl
        exact slash_not_mem safe (.head _) (.head _)
      have notRoot : (['/'].intercalate ((r :: first) :: rest)).head? ≠ some '/' := by
        cases rest <;> simpa using notSlash
      rw [join, dropWhile_cons_of_neg (by simp)]
      simp only [clean, split_intercalate safe (cons_ne_nil _ _), notRoot, decide_false,
        cleaned safe, append_nil, reverse_reverse, if_false]
      rw [if_neg (by simp)]

theorem components_intercalate (filled : ∀ component ∈ elem, component ≠ []) :
    components (['/'].intercalate elem) = elem := by
  by_cases present : elem = []
  · subst present
    rfl
  · rw [components, split_intercalate safe present, filter_eq_self.mpr (by simpa using filled)]

end Paths

/-- A path below the directory that it is taken from. -/
def Confined (path : List Char) : Prop :=
  path.head? ≠ some '/' ∧ ∀ component ∈ Text.split '/' path, isSafe component = true

/-- A file name whose components need no escape. -/
structure PlainName where
  text : List Char
  safe : ∀ component ∈ Text.split '/' text, isSafe component = true

theorem slugifyPath_eq (filePath : List Char) :
    slugifyPath filePath = ['/'].intercalate ((components filePath).map makeSafeFilename) := by
  rw [slugifyPath, join_eq (by simp [isSafe_makeSafeFilename]), filter_map, components]
  congr 2
  apply filter_congr
  simp [makeSafeFilename_eq_nil]

theorem filled_of_mem {filePath : List Char} (member : component ∈ components filePath) :
    component ≠ [] := by
  simpa using (mem_filter.mp member).2

theorem confined_slugifyPath (filePath : List Char) : Confined (slugifyPath filePath) := by
  rw [slugifyPath_eq]
  by_cases none : components filePath = []
  · rw [none]
    exact ⟨nofun, by decide⟩
  have safe : ∀ component ∈ (components filePath).map makeSafeFilename,
      isSafe component = true := by simp [isSafe_makeSafeFilename]
  have parts := split_intercalate safe (by simpa using none)
  constructor
  · intro root
    obtain ⟨rest, path⟩ := head?_eq_some_iff.mp root
    rw [path, Text.split, if_pos rfl] at parts
    have member : [] ∈ (components filePath).map makeSafeFilename := parts ▸ .head _
    obtain ⟨component, inside, empty⟩ := mem_map.mp member
    exact filled_of_mem inside ((makeSafeFilename_eq_nil component).mp empty)
  · simp [parts, isSafe_makeSafeFilename]

/-- Every path stays below the directory, and two file names whose components need no escape
give the same path exactly if they have the same components. -/
theorem export_paths : (∀ filePath, Confined (slugifyPath filePath)) ∧
    ∀ name other : PlainName, slugifyPath name.text = slugifyPath other.text ↔
      components name.text = components other.text := by
  have same : ∀ name : PlainName, components (slugifyPath name.text) = components name.text := by
    intro name
    have safe : ∀ component ∈ components name.text, isSafe component = true :=
      fun component member => name.safe component (mem_filter.mp member).1
    rw [slugifyPath_eq, map_congr_left fun component member =>
      makeSafeFilename_of_isSafe (safe component member), map_id']
    exact components_intercalate safe fun _ => filled_of_mem
  refine ⟨confined_slugifyPath, fun name other => ⟨fun path => ?_, fun equal => ?_⟩⟩
  · rw [← same, path, same]
  · rw [slugifyPath_eq, slugifyPath_eq, equal]

/-- Of a letter with an accent the escape is left, which is a file name of its own. -/
theorem escape_collides :
    components "a/é".toList ≠ components "a/_e9".toList ∧
      slugifyPath "a/é".toList = slugifyPath "a/_e9".toList := by
  decide

end ConfigConnector.OutputSink
