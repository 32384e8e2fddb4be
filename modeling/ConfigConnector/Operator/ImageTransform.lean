import ConfigConnector.Text.Case

/- The images of a manifest under another registry. Texts are lists of characters. -/
namespace ConfigConnector.Operator

open List Text

/-- What stands before and behind the last colon: `strings.LastIndex`. -/
def lastColon : List Char → Option (List Char × List Char)
  | [] => none
  | c :: rest =>
    match lastColon rest with
    | some (before, behind) => some (c :: before, behind)
    | none => if c = ':' then some ([], rest) else none

/-- `NewImageTransform`: the prefix with one slash at its end, if there is one. -/
def newImageTransform (imagePrefix : List Char) : List Char :=
  let trimmed := if imagePrefix.getLast? = some '/' then imagePrefix.dropLast else imagePrefix
  if trimmed ++ ['/'] = ['/'] then [] else trimmed ++ ['/']

def remapImage (imagePrefix image : List Char) : List Char :=
  let (name, tag) := (lastColon image).getD (image, [])
  let newName := imagePrefix ++ (split '/' name).getLast (split_ne_nil '/' name)
  if tag = [] then newName else newName ++ ':' :: tag

/-- A part of a reference has none of the characters that stand between parts. -/
structure Part where
  text : List Char
  present : text ≠ []
  plain : ∀ c ∈ ['/', ':', '@'], c ∉ text

/-- The host of a registry. In the brackets of an IPv6 address there are colons. -/
structure Host where
  text : List Char
  present : text ≠ []
  plain : ∀ c ∈ ['/', '@'], c ∉ text

/-- A reference `[registry[:port]/][path/]name[:tag][@algorithm:digest]`. -/
structure ImageReference where
  registry : Option (Host × Option Part)
  path : List Part
  name : Part
  tag : Option Part
  digest : Option (Part × Part)

namespace ImageReference

/-- What stands before the name: the registry and the path, a slash behind each component. -/
def location (image : ImageReference) : List Char :=
  let registry := match image.registry with
    | none => []
    | some (host, none) => [host.text]
    | some (host, some port) => [host.text ++ ':' :: port.text]
  (registry ++ image.path.map (·.text)).flatMap (· ++ ['/'])

/-- The name with tag and digest. -/
def base (image : ImageReference) : List Char :=
  image.name.text ++ image.tag.elim [] (':' :: ·.text) ++
    image.digest.elim [] fun (algorithm, digest) => '@' :: algorithm.text ++ ':' :: digest.text

end ImageReference

/-- Where the images are to come from: the prefix and one slash, whatever slashes the prefix ends
with, or nothing without a prefix. -/
def destination (imagePrefix : List Char) : List Char :=
  if imagePrefix = [] then [] else imagePrefix.rdropWhile (· = '/') ++ ['/']

section Remapping

variable {image base dir : List Char}

theorem lastColon_eq_none : lastColon image = none ↔ ':' ∉ image := by
  induction image with
  | nil => simp [lastColon]
  | cons c rest ih => cases found : lastColon rest <;> grind [lastColon]

theorem lastColon_eq_some {before behind : List Char}
    (found : lastColon image = some (before, behind)) :
    image = before ++ ':' :: behind ∧ ':' ∉ behind := by
  induction image generalizing before with
  | nil => cases found
  | cons c rest ih =>
    rw [lastColon] at found
    cases below : lastColon rest with
    | none =>
      rw [below] at found
      obtain ⟨rfl, same⟩ := Option.ite_none_right_eq_some.mp found
      cases same
      exact ⟨rfl, lastColon_eq_none.mp below⟩
    | some parts =>
      rw [below] at found
      cases found
      obtain ⟨rfl, last⟩ := ih below
      exact ⟨rfl, last⟩

/-- Nothing, or a text with a slash at its end. -/
def IsLocation (dir : List Char) : Prop := dir = [] ∨ ∃ above, dir = above ++ ['/']

theorem getLast_split (located : IsLocation dir) (plain : '/' ∉ base) :
    (split '/' (dir ++ base)).getLast (split_ne_nil '/' _) = base := by
  rcases located with rfl | ⟨above, rfl⟩
  · simp [split_of_not_mem plain]
  · simp [split_append, split_of_not_mem plain]

/-- The location gives way to another just when the last colon is behind it and the other is
put before the name. `short`: no more than a text without colons is wanted behind what is put. -/
theorem remapImage_iff (located : IsLocation dir) (plain : '/' ∉ base)
    (ends : base.getLast?.any (· ≠ ':')) {imagePrefix wanted : List Char}
    (short : ∀ more, wanted = imagePrefix ++ more → ':' ∉ more) :
    remapImage imagePrefix (dir ++ base) = wanted ++ base ↔
      (':' ∈ base ∨ ':' ∉ dir) ∧ imagePrefix = wanted := by
  rw [remapImage]
  cases found : lastColon (dir ++ base) with
  | none =>
    have none := lastColon_eq_none.mp found
    rw [mem_append, not_or] at none
    simp [getLast_split located plain, none.1]
  | some parts =>
    obtain ⟨before, behind⟩ := parts
    obtain ⟨same, last⟩ := lastColon_eq_some found
    by_cases tagged : ':' ∈ base
    · obtain ⟨c, rfl, rfl⟩ : ∃ c, before = dir ++ c ∧ base = c ++ ':' :: behind := by
        rcases append_eq_append_iff.mp same with named | ⟨c, rfl, rest⟩
        · exact named
        cases c with
        | nil => exact ⟨[], by simp, rest.symm⟩
        | cons d c =>
          obtain ⟨rfl, rfl⟩ := cons.inj rest
          exact absurd (mem_append_right c tagged) last
      have named : '/' ∉ c := fun slash => plain (mem_append_left _ slash)
      have present : behind ≠ [] := by
        rintro rfl
        simp at ends
      simp [getLast_split located named, present]
    · -- The colon of a port is taken for that of a tag.
      obtain ⟨c, rfl, rfl⟩ : ∃ c, dir = before ++ ':' :: c ∧ behind = c ++ base := by
        rcases append_eq_append_iff.mp same with ⟨c, rfl, rfl⟩ | ⟨c, rfl, rest⟩
        · simp at tagged
        cases c with
        | nil => simp [← show ':' :: behind = base from rest] at tagged
        | cons d c =>
          obtain ⟨rfl, rfl⟩ := cons.inj rest
          exact ⟨c, rfl, rfl⟩
      have present : base ≠ [] := by
        rintro rfl
        cases ends
      simp only [tagged, mem_append, mem_cons, true_or, or_true, not_true, or_self, false_and,
        iff_false]
      intro same
      refine short ((split '/' before).getLast (split_ne_nil '/' before) ++ ':' :: c) ?_ (by simp)
      have whole : imagePrefix ++ ((split '/' before).getLast (split_ne_nil '/' before) ++
          ':' :: c) ++ base = wanted ++ base := by simpa [present] using same
      exact (append_cancel_right whole).symm

end Remapping

section References

variable (image : ImageReference) (imagePrefix : List Char)

theorem isLocation_destination : IsLocation (destination imagePrefix) := by
  unfold destination
  split
  · exact .inl rfl
  · exact .inr ⟨_, rfl⟩

theorem colon_mem_destination : ':' ∈ destination imagePrefix ↔ ':' ∈ imagePrefix := by
  have trimmed : ':' ∈ imagePrefix.rdropWhile (· = '/') ↔ ':' ∈ imagePrefix := by
    induction imagePrefix using reverseRecOn with
    | nil => simp
    | append_singleton init last ih =>
      rw [rdropWhile_concat]
      split <;> simp_all
  by_cases empty : imagePrefix = [] <;> simp [destination, empty, trimmed]

/-- One slash at the end of the prefix is taken off before one is added, and a slash alone is
taken for no prefix. -/
theorem newImageTransform_concat (init : List Char) (last : Char) :
    newImageTransform (init ++ [last]) =
      if last = '/' then if init = [] then [] else init ++ ['/'] else init ++ [last, '/'] := by
  have longer : init ++ [last, '/'] ≠ ['/'] := fun same => by simpa using congrArg length same
  by_cases slash : last = '/' <;> simp [newImageTransform, slash, longer]

theorem destination_concat (init : List Char) (last : Char) :
    destination (init ++ [last]) =
      (if last = '/' then init.rdropWhile (· = '/') else init ++ [last]) ++ ['/'] := by
  simp [destination, rdropWhile_concat]

/-- More than one slash at the end stays. -/
theorem destination_slashes (init : List Char) :
    (destination (init ++ ['/', '/'])).length <
      (newImageTransform (init ++ ['/', '/'])).length := by
  have front := rdropWhile_prefix (· = '/') init
  have trimmed := front.length_le
  rw [show init ++ ['/', '/'] = (init ++ ['/']) ++ ['/'] by simp, destination_concat,
    newImageTransform_concat, rdropWhile_concat]
  simp
  omega

theorem newImageTransform_cases :
    imagePrefix = ['/'] ∨ (∃ init, imagePrefix = init ++ ['/', '/']) ∨
      newImageTransform imagePrefix = destination imagePrefix := by
  rcases eq_nil_or_concat' imagePrefix with rfl | ⟨init, last, rfl⟩
  · exact .inr (.inr rfl)
  rw [newImageTransform_concat, destination_concat]
  by_cases slash : last = '/'
  · subst slash
    rcases eq_nil_or_concat' init with rfl | ⟨before, second, rfl⟩
    · exact .inl rfl
    by_cases again : second = '/'
    · exact .inr (.inl ⟨before, by simp [again]⟩)
    · exact .inr (.inr (by simp [again]))
  · exact .inr (.inr (by simp [slash]))

/-- What is put before the name is no less than a prefix with one slash, but for a slash alone. -/
theorem destination_short (more : List Char)
    (longer : destination imagePrefix = newImageTransform imagePrefix ++ more) : ':' ∉ more := by
  rcases newImageTransform_cases imagePrefix with rfl | ⟨init, rfl⟩ | same
  · rw [← show destination ['/'] = more from longer]
    decide
  · have lengths := congrArg length longer
    have shorter := destination_slashes init
    rw [length_append] at lengths
    omega
  · rw [same, self_eq_append_right] at longer
    simp [longer]

theorem newImageTransform_eq_iff : newImageTransform imagePrefix = destination imagePrefix ↔
    imagePrefix ≠ ['/'] ∧ ¬ ['/', '/'] <:+ imagePrefix := by
  constructor
  · refine fun same => ⟨?_, ?_⟩
    · rintro rfl
      exact absurd same (by decide)
    · rintro ⟨init, rfl⟩
      exact absurd (congrArg length same) (destination_slashes init).ne'
  · rintro ⟨alone, slashes⟩
    rcases newImageTransform_cases imagePrefix with slash | ⟨init, rfl⟩ | same
    · exact absurd slash alone
    · exact absurd (suffix_append init _) slashes
    · exact same

theorem isLocation_location : IsLocation image.location := by
  rw [ImageReference.location, IsLocation]
  generalize (HAppend.hAppend _ _ : List (List Char)) = components
  rcases eq_nil_or_concat components with rfl | ⟨above, last, rfl⟩
  · exact .inl rfl
  · exact .inr ⟨above.flatMap (· ++ ['/']) ++ last, by simp⟩

theorem Part.colon_not_mem (part : Part) : ':' ∉ part.text := part.plain ':' (by decide)

theorem Part.slash_not_mem (part : Part) : '/' ∉ part.text := part.plain '/' (by decide)

theorem Part.ends (part : Part) (before : List Char) :
    (before ++ part.text).getLast?.any (· ≠ ':') := by
  obtain ⟨init, last, same⟩ := eq_nil_or_concat part.text |>.resolve_left part.present
  have other : last ≠ ':' := fun colon => part.colon_not_mem (by simp [same, colon])
  simp [same, other]

theorem colon_mem_location : ':' ∈ image.location ↔
    ∃ host port, image.registry = some (host, port) ∧ (port.isSome ∨ ':' ∈ host.text) := by
  have plain := Part.colon_not_mem
  rcases registry : image.registry with _ | ⟨host, _ | port⟩ <;>
    simp [ImageReference.location, registry, plain]

theorem colon_mem_base : ':' ∈ image.base ↔ image.tag.isSome ∨ image.digest.isSome := by
  cases tag : image.tag <;> cases digest : image.digest <;>
    simp [ImageReference.base, tag, digest, Part.colon_not_mem]

theorem slash_not_mem_base : '/' ∉ image.base := by
  cases tag : image.tag <;> cases digest : image.digest <;>
    simp [ImageReference.base, tag, digest, Part.slash_not_mem]

theorem base_ends : image.base.getLast?.any (· ≠ ':') := by
  rw [ImageReference.base]
  rcases image.digest with _ | ⟨algorithm, digest⟩
  · rcases image.tag with _ | tag
    · simpa using image.name.ends []
    · simpa using tag.ends (image.name.text ++ [':'])
  · simpa using digest.ends (image.name.text ++ image.tag.elim [] (':' :: ·.text) ++
      '@' :: algorithm.text ++ [':'])

/-- The location gives way to the prefix, and nothing else changes, now or later. -/
def ChangesOnlyLocation : Prop :=
  let moved := destination imagePrefix ++ image.base
  remapImage (newImageTransform imagePrefix) (image.location ++ image.base) = moved ∧
    remapImage (newImageTransform imagePrefix) moved = moved

/-- Without a tag and a digest, a colon of the location is taken for that of a tag; and of the
slashes at the end of a prefix one is left out. -/
theorem changesOnlyLocation_iff : ChangesOnlyLocation image imagePrefix ↔
    ((image.tag.isSome ∨ image.digest.isSome) ∨
      (∀ host port, image.registry = some (host, port) → port = none ∧ ':' ∉ host.text) ∧
        ':' ∉ imagePrefix) ∧
    imagePrefix ≠ ['/'] ∧ ¬ ['/', '/'] <:+ imagePrefix := by
  have moves {dir} (located : IsLocation dir) := remapImage_iff located
    (slash_not_mem_base image) (base_ends image) (destination_short imagePrefix)
  rw [ChangesOnlyLocation, moves (isLocation_location image),
    moves (isLocation_destination imagePrefix), colon_mem_destination, colon_mem_location,
    colon_mem_base, newImageTransform_eq_iff, ← and_and_right, ← or_and_left]
  simp [not_or]

end References

/-- `localhost:5000/webhook` is of no tag. -/
def localWebhook : ImageReference where
  registry := some (⟨"localhost".toList, by decide, by decide⟩,
    some ⟨"5000".toList, by decide, by decide⟩)
  path := []
  name := ⟨"webhook".toList, by decide, by decide⟩
  tag := none
  digest := none

theorem port_taken_for_tag : ¬ ChangesOnlyLocation localWebhook "mirror".toList ∧
    remapImage (newImageTransform "mirror".toList) (localWebhook.location ++ localWebhook.base) =
      "mirror/localhost:5000/webhook".toList := by
  simp only [ChangesOnlyLocation]
  decide

end ConfigConnector.Operator
