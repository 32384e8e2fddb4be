import ConfigConnector.Krmtotf.Placement

/- Sets in the spec. Terraform has them in an order of its own, so their elements are matched
with those of the previous spec by a hash. -/
namespace ConfigConnector.Krmtotf

open K8s GoMap List Option String

variable {items prev : List Value} {m : AList fun _ : Int => Value} {h : Int} {value : Value}
  {orders : Orders} {name above : String} {rc : ResourceConfig} {state prevSpec : Fields}

section Converter

variable (c : Conversion)

/-- `convertTFElemToKCCElem`. A map that is nil reads as null. -/
def convertTFElemToKCCElem (orders : Orders) (tfObj prevSpecObj : Value) (name : String) :
    Elem → Option Value
  | .schema _ => some (if prevSpecObj.isNil then tfObj else prevSpecObj)
  | .resource fields =>
    (convertedEntries c orders tfObj.entries prevSpecObj.entries name none fields).map
      fun entries => (asObject entries).getD .null
  | .none => some prevSpecObj

/-- The Terraform value of an element of the previous spec. -/
def prevAsTF (prevElem : Value) : Elem → Option Value
  | .schema _ => some prevElem
  | .resource fields =>
    match prevElem with
    | .map prevObj => (krmObjectToTFObject false prevObj fields).toOption.map .map
    | _ => none
  | .none => none

/-- `hashFunc(asHashable(val, schema.Elem))`. -/
def hashElem (schema : Schema) (val : Value) : Option Int :=
  match schema.elem with
  | .none => none
  | _ => c.hash schema val

/-- `convertTFSetToKCCSet`. -/
def convertTFSetToKCCSet (orders : Orders) (stateVal prevSpecVal : Value) (schema : Schema)
    (name : String) : Option Value :=
  if containsReferenceField c.rc name && !prevSpecVal.isNil then some prevSpecVal
  else match stateVal with
    | .list [] => some .null
    | .list list => do
      let retObjList ← convertSetElems (hashElem c schema) (prevAsTF · schema.elem)
        (fun orders tfObj prevElem =>
          convertTFElemToKCCElem c orders tfObj prevElem name schema.elem)
        orders list prevSpecVal.items
      return if retObjList.isEmpty then .null else .list retObjList
    | _ => none

/-- A set whose elements are matched with those of the previous spec. -/
def isSpecSet (a : Attributes) : Bool :=
  decide (a.type = .set) && isConfigurableField a && a.maxItems != 1

end Converter

section Matching

variable {hash : Value → Option Int} {asTF : Value → Option Value}
  {convertElem : Orders → Value → Value → Option Value}

theorem stateHashMap_concat (items : List Value) (item : Value) :
    stateHashMap hash (items ++ [item]) =
      (stateHashMap hash items).bind fun m => (hash item).map fun h => m.insert h item := by
  rw [stateHashMap, foldlM_append, ← stateHashMap]
  cases stateHashMap hash items with
  | none => rfl
  | some m => cases found : hash item <;> simp [found]

theorem stateHashMap_isSome (each : ∀ item ∈ items, ∃ h, hash item = some h) :
    ∃ m, stateHashMap hash items = some m := by
  induction items using List.reverseRecOn with
  | nil => exact ⟨∅, rfl⟩
  | append_singleton items item ih =>
    obtain ⟨m, done⟩ := ih fun other member => each other (mem_append_left _ member)
    obtain ⟨h, found⟩ := each item (mem_append_right _ (mem_singleton_self item))
    exact ⟨m.insert h item, by rw [stateHashMap_concat, done, found]; rfl⟩

/-- What is under a hash is an element of the state that has it. -/
theorem mem_of_stateHashMap (done : stateHashMap hash items = some m)
    (found : m.lookup h = some value) : value ∈ items ∧ hash value = some h := by
  induction items using List.reverseRecOn generalizing m with
  | nil =>
    cases done
    cases found
  | append_singleton items item ih =>
    rw [stateHashMap_concat] at done
    obtain ⟨before, below, done⟩ := bind_eq_some_iff.mp done
    obtain ⟨key, hashed, rfl⟩ := map_eq_some_iff.mp done
    by_cases same : h = key
    · subst same
      rw [AList.lookup_insert] at found
      cases found
      exact ⟨mem_append_right _ (mem_singleton_self _), hashed⟩
    · rw [AList.lookup_insert_ne same] at found
      obtain ⟨member, here⟩ := ih below found
      exact ⟨mem_append_left _ member, here⟩

/-- Where no two elements have the same hash, each is under its own. -/
theorem lookup_stateHashMap (done : stateHashMap hash items = some m)
    (injective : ∀ a ∈ items, ∀ b ∈ items, hash a = hash b → a = b) :
    m.lookup h = some value ↔ value ∈ items ∧ hash value = some h := by
  constructor
  · exact mem_of_stateHashMap done
  · rintro ⟨member, hashed⟩
    have present : ∃ other, m.lookup h = some other := by
      clear injective
      induction items using List.reverseRecOn generalizing m with
      | nil => cases member
      | append_singleton items item ih =>
        rw [stateHashMap_concat] at done
        obtain ⟨before, below, done⟩ := bind_eq_some_iff.mp done
        obtain ⟨key, last, rfl⟩ := map_eq_some_iff.mp done
        by_cases same : h = key
        · subst same
          exact ⟨item, AList.lookup_insert _⟩
        rw [AList.lookup_insert_ne same]
        rcases mem_append.mp member with earlier | here
        · exact ih below earlier
        · rw [mem_singleton.mp here, last] at hashed
          exact absurd (Option.some.inj hashed).symm same
    obtain ⟨other, found⟩ := present
    obtain ⟨otherMember, otherHashed⟩ := mem_of_stateHashMap done found
    rw [found, injective other otherMember value member (otherHashed.trans hashed.symm)]

theorem lookup_of_erase {erased : Int}
    (found : (m.erase erased).lookup h = some value) : h ≠ erased ∧ m.lookup h = some value := by
  by_cases same : h = erased
  · rw [same, AList.lookup_erase] at found
    cases found
  · rw [AList.lookup_erase_ne same] at found
    exact ⟨same, found⟩

/-- There is a result for each previous element, and what is left of the state was there
before. -/
theorem convertPrevious_spec {converted : List Value} {left : AList fun _ : Int => Value}
    (done : convertPrevious hash asTF convertElem orders prev m = some (converted, left)) :
    converted.length = prev.length ∧
      ∀ {h value}, left.lookup h = some value → m.lookup h = some value := by
  induction prev generalizing orders m converted with
  | nil =>
    cases done
    exact ⟨rfl, id⟩
  | cons prevElem rest ih =>
    rw [convertPrevious] at done
    split at done
    · obtain ⟨⟨others, leftOver⟩, below, same⟩ := bind_eq_some_iff.mp done
      cases same
      exact (ih below).imp_left (congrArg (· + 1))
    obtain ⟨tf, _, done⟩ := bind_eq_some_iff.mp done
    obtain ⟨prevHash, _, done⟩ := bind_eq_some_iff.mp done
    obtain ⟨elem, _, done⟩ := bind_eq_some_iff.mp done
    obtain ⟨⟨others, leftOver⟩, below, same⟩ := bind_eq_some_iff.mp done
    cases same
    obtain ⟨length, kept⟩ := ih below
    exact ⟨congrArg (· + 1) length, fun found => (lookup_of_erase (kept found)).2⟩

theorem convertPrevious_isSome
    (hashed : ∀ prevElem ∈ prev, prevElem ≠ .null → ∃ h, (asTF prevElem).bind hash = some h)
    (converts : ∀ orders, ∀ prevElem ∈ prev, ∀ value,
      value = .map [] ∨ (∃ h, m.lookup h = some value) →
      ∃ elem, convertElem orders value prevElem = some elem) (orders : Orders) :
    ∃ result, convertPrevious hash asTF convertElem orders prev m = some result := by
  induction prev generalizing orders m with
  | nil => exact ⟨([], m), rfl⟩
  | cons prevElem rest ih =>
    have restHashed := fun other member => hashed other (mem_cons_of_mem prevElem member)
    rw [convertPrevious]
    split
    · obtain ⟨result, below⟩ := ih restHashed (fun orders other member =>
        converts orders other (.tail _ member)) (orders.below 1)
      exact ⟨_, bind_eq_some_iff.mpr ⟨result, below, rfl⟩⟩
    rename_i notNil
    obtain ⟨prevHash, found⟩ := hashed prevElem (.head _) (by simpa using notNil)
    obtain ⟨tf, asTerraform, hash_tf⟩ := bind_eq_some_iff.mp found
    obtain ⟨elem, converted⟩ := converts (orders.below 0) prevElem (.head _)
      ((m.lookup prevHash).getD (.map [])) (by
        cases here : m.lookup prevHash with
        | none => exact .inl rfl
        | some value => exact .inr ⟨prevHash, here⟩)
    obtain ⟨result, below⟩ := ih restHashed (m := m.erase prevHash) (fun orders other member value
        cause => converts orders other (.tail _ member) value (by
          exact cause.imp_right fun ⟨h, kept⟩ => ⟨h, (lookup_of_erase kept).2⟩))
        (orders.below 1)
    exact ⟨(elem :: result.1, result.2), by simp [asTerraform, hash_tf, converted, below]⟩

/-- The conversion of a set succeeds if that of its elements does. -/
theorem convertSetElems_isSome (hashed : ∀ item ∈ items, ∃ h, hash item = some h)
    (prevHashed : ∀ prevElem ∈ prev, prevElem ≠ .null → ∃ h, (asTF prevElem).bind hash = some h)
    (converts : ∀ orders, ∀ prevElem ∈ prev, ∀ value, value = .map [] ∨ value ∈ items →
      ∃ elem, convertElem orders value prevElem = some elem)
    (converts_new : ∀ orders, ∀ value ∈ items, ∃ elem, convertElem orders value .null = some elem)
    (orders : Orders) :
    ∃ elems, convertSetElems hash asTF convertElem orders items prev = some elems := by
  obtain ⟨m, mapped⟩ := stateHashMap_isSome hashed
  obtain ⟨⟨kept, left⟩, previous⟩ := convertPrevious_isSome prevHashed
    (fun orders prevElem member value cause => converts orders prevElem member value
      (cause.imp_right fun ⟨_, found⟩ => (mem_of_stateHashMap mapped found).1)) (orders.below 0)
  have news : ∀ entry ∈ (range orders.here left).zipIdx,
      ∃ elem, convertElem ((orders.below 1).below entry.2) entry.1.2 .null = some elem := by
    rintro ⟨⟨h, value⟩, idx⟩ member
    have inLeft := (mem_range orders.here left h value).mp (fst_mem_of_mem_zipIdx member)
    have before := (convertPrevious_spec previous).2 inLeft
    exact converts_new _ value (mem_of_stateHashMap mapped before).1
  obtain ⟨new, newDone⟩ := Fallible.mapM_isSome news
  exact ⟨kept ++ new, by simp only [convertSetElems, mapped, previous, bind_eq_bind,
    bind_some, newDone]; rfl⟩

/-- The parts of the result: what the previous elements became, and what is new. -/
theorem convertSetElems_eq_some {elems : List Value} :
    convertSetElems hash asTF convertElem orders items prev = some elems ↔
      ∃ m kept left new, stateHashMap hash items = some m ∧
        convertPrevious hash asTF convertElem (orders.below 0) prev m = some (kept, left) ∧
        List.Forall₂ (fun entry elem =>
          convertElem ((orders.below 1).below entry.2) entry.1.2 .null = some elem)
          (range orders.here left).zipIdx new ∧
        kept ++ new = elems := by
  simp only [convertSetElems, bind_eq_bind, bind_eq_some_iff, Option.pure_def,
    Option.some.injEq, ← Fallible.mapM_eq_some]
  constructor
  · rintro ⟨m, mapped, ⟨kept, left⟩, previous, new, newDone, same⟩
    exact ⟨m, kept, left, new, mapped, previous, newDone, same⟩
  · rintro ⟨m, kept, left, new, mapped, previous, newDone, same⟩
    exact ⟨m, mapped, (kept, left), previous, new, newDone, same⟩

/-- A set that is not empty in the state is not empty in the result. -/
theorem convertSetElems_ne_nil {elems : List Value}
    (done : convertSetElems hash asTF convertElem orders items prev = some elems)
    (filled : items ≠ []) : elems ≠ [] := by
  obtain ⟨m, kept, left, new, mapped, previous, newDone, rfl⟩ := convertSetElems_eq_some.mp done
  intro empty
  obtain ⟨noneKept, noneNew⟩ := append_eq_nil_iff.mp empty
  have length := (convertPrevious_spec previous).1
  cases prev with
  | cons prevElem rest =>
    rw [noneKept] at length
    cases length
  | nil =>
    cases previous
    obtain ⟨before, last, rfl⟩ := eq_nil_or_concat items |>.resolve_left filled
    rw [concat_eq_append, stateHashMap_concat] at mapped
    obtain ⟨earlier, _, inserted⟩ := bind_eq_some_iff.mp mapped
    obtain ⟨h, _, rfl⟩ := map_eq_some_iff.mp inserted
    have member := (mem_range orders.here _ h last).mpr (AList.lookup_insert earlier)
    rw [noneNew, List.forall₂_nil_right_iff, zipIdx_eq_nil_iff] at newDone
    rw [newDone] at member
    cases member

/-- A set of the spec is converted by `convertTFSetToKCCSet`. -/
theorem convertList_set {c : Conversion} {prevSpecVal : Value}
    {nested : Option FieldSet} {a : Attributes} {elem : Elem}
    (set : isSpecSet a) (filled : items ≠ []) :
    convertList c orders (.list items) prevSpecVal name nested a elem =
      (convertTFSetToKCCSet c orders (.list items) prevSpecVal (.mk a elem) name).map
        fun retObj => if retObj.isNil then none else some retObj := by
  simp only [isSpecSet, Bool.and_eq_true, decide_eq_true_eq, bne_iff_ne] at set
  obtain ⟨⟨type, configurable⟩, many⟩ := set
  obtain ⟨first, rest, rfl⟩ := exists_cons_of_ne_nil filled
  unfold convertTFSetToKCCSet
  cases fallsBack : containsReferenceField c.rc name && !prevSpecVal.isNil with
  | true =>
    obtain ⟨begins, notNil⟩ := Bool.and_eq_true_iff.mp fallsBack
    have present : prevSpecVal.isNil = false := by simpa using notNil
    cases elem <;> simp [convertList, type, configurable, many, begins, present]
  | false =>
    have list : ∀ elems : Option (List Value), (∀ es, elems = some es → es ≠ []) →
        (elems.map fun es => some (Value.list es)) =
          (elems.bind fun es => some (if es.isEmpty then Value.null else .list es)).map
            fun retObj => if retObj.isNil then none else some retObj := by
      intro elems filled
      cases elems with
      | none => rfl
      | some es =>
        obtain ⟨e, es, rfl⟩ := exists_cons_of_ne_nil (filled es rfl)
        rfl
    cases elem with
    | none =>
      have noHash : hashElem c (.mk a .none) = fun _ => none := rfl
      simp [convertList, type, configurable, many, fallsBack, convertSetElems, stateHashMap, noHash]
    | schema _ | resource _ =>
      simp only [convertList, type, configurable, many, fallsBack]
      exact list _ fun es done => convertSetElems_ne_nil done filled

end Matching

section Frame

/-- The path is `above` or continues it with further parts. -/
def AtOrBelow (above path : String) : Prop := path = above ∨ ∃ rest, path = above ++ "." ++ rest

/-- There is a reference at the path or below it. -/
def HasReferences (rc : ResourceConfig) (name : String) : Prop :=
  ∃ refConfig ∈ rc.resourceReferences, AtOrBelow name refConfig.tfField

/-- The path of some reference begins with the characters of `name`. -/
def BeginsReference (rc : ResourceConfig) (name : String) : Prop :=
  ∃ refConfig ∈ rc.resourceReferences, name.toList <+: refConfig.tfField.toList

theorem containsReferenceField_iff (rc : ResourceConfig) (name : String) :
    containsReferenceField rc name ↔ BeginsReference rc name := by
  rw [containsReferenceField, List.any_eq_true]
  simp only [startsWith_string_iff]
  rfl

theorem begins_qualify (above field : String) : above.toList <+: (qualify above field).toList := by
  rw [qualify]
  split
  · rw [toList_append, toList_append, List.append_assoc]
    exact prefix_append _ _
  rename_i top
  have empty : above = "" := by simpa using top
  subst empty
  exact nil_prefix

theorem not_begins_qualify (apart : ¬ BeginsReference rc above) (field : String) :
    ¬ BeginsReference rc (qualify above field) := by
  rintro ⟨refConfig, member, begins⟩
  exact apart ⟨refConfig, member, (begins_qualify above field).trans begins⟩

theorem isReferenceField_none
    (apart : ¬ BeginsReference rc name) : isReferenceField name rc = none := by
  rw [isReferenceField, List.find?_eq_none]
  intro refConfig member same
  have equal : name = refConfig.tfField := by simpa using same
  exact apart ⟨refConfig, member, equal ▸ prefix_rfl⟩

theorem containsReferenceField_false
    (apart : ¬ BeginsReference rc name) : containsReferenceField rc name = false := by
  rw [← Bool.not_eq_true, containsReferenceField_iff]
  exact apart

/-- The same conversion for a resource that has no references. -/
def Conversion.withoutReferences (c : Conversion) : Conversion :=
  { c with rc := { c.rc with resourceReferences := [] } }

variable {c : Conversion} {managedFields : Option FieldSet}

theorem not_begins_withoutReferences (name : String) :
    ¬ BeginsReference c.withoutReferences.rc name := by
  rintro ⟨refConfig, member, -⟩
  cases member

theorem convertedEntries_congr {c' : Conversion} {schemas : SchemaMap}
    (each : ∀ field s, (field, s) ∈ schemas → ∀ orders,
      assignment c state prevSpec above field
          (convertField c orders state prevSpec above managedFields field s) =
        assignment c' state prevSpec above field
          (convertField c' orders state prevSpec above managedFields field s)) :
    convertedEntries c orders state prevSpec above managedFields schemas =
      convertedEntries c' orders state prevSpec above managedFields schemas := by
  induction schemas generalizing orders with
  | nil => rw [convertedEntries, convertedEntries]
  | cons first rest ih =>
    obtain ⟨field, s⟩ := first
    have here := each field s (.head _) (orders.below 0)
    rw [convertedEntries, convertedEntries, here,
      ih fun field s member => each field s (.tail _ member)]

theorem assignment_withoutReferences {field : String}
    (apart : ¬ BeginsReference c.rc (qualify above field)) (converted : Option (Option Value)) :
    assignment c state prevSpec above field converted =
      assignment c.withoutReferences state prevSpec above field converted := by
  rw [assignment, assignment, isReferenceField_none apart,
    isReferenceField_none (not_begins_withoutReferences _)]
  rfl

/-- What is below a path that no reference begins with is converted as if there were no
references. -/
theorem convertField_withoutReferences (s : Schema) {field : String}
    (apart : ¬ BeginsReference c.rc (qualify above field)) :
    convertField c orders state prevSpec above managedFields field s =
      convertField c.withoutReferences orders state prevSpec above managedFields field s := by
  induction s using Schema.tree generalizing orders state prevSpec above field managedFields with
  | step attributes elem _ fieldsIh =>
    have notHere := containsReferenceField_false apart
    have notThere := containsReferenceField_false
      (not_begins_withoutReferences (c := c) (qualify above field))
    have list : ∀ stateVal prevSpecVal nested,
        convertList c orders stateVal prevSpecVal (qualify above field) nested attributes elem =
          convertList c.withoutReferences orders stateVal prevSpecVal (qualify above field) nested
            attributes elem := by
      intro stateVal prevSpecVal nested
      cases elem with
      | none => simp only [convertList, notHere, notThere]
      | schema element =>
        simp only [convertList, notHere, notThere]
        rfl
      | resource fields =>
        have entries : ∀ orders state prevSpec managed,
            convertedEntries c orders state prevSpec (qualify above field) managed fields =
              convertedEntries c.withoutReferences orders state prevSpec (qualify above field)
                managed fields := by
          intro orders state prevSpec managed
          apply convertedEntries_congr
          intro inner s member orders
          have below := not_begins_qualify apart inner
          rw [assignment_withoutReferences below, fieldsIh fields rfl inner s member below]
        simp only [convertList, notHere, notThere, entries]
        rfl
    rw [convertField, convertField]
    simp only [list]
    rfl

theorem convertTFElemToKCCElem_withoutReferences {tfObj prevSpecObj : Value}
    (apart : ¬ BeginsReference c.rc name) (elem : Elem) :
    convertTFElemToKCCElem c orders tfObj prevSpecObj name elem =
      convertTFElemToKCCElem c.withoutReferences orders tfObj prevSpecObj name elem := by
  cases elem with
  | none | schema _ => rfl
  | resource fields =>
    rw [convertTFElemToKCCElem, convertTFElemToKCCElem, convertedEntries_congr]
    intro field s member orders
    have below := not_begins_qualify apart field
    rw [assignment_withoutReferences below, convertField_withoutReferences s below]

theorem convertTFSetToKCCSet_withoutReferences {stateVal prevSpecVal : Value}
    (apart : ¬ BeginsReference c.rc name) (schema : Schema) :
    convertTFSetToKCCSet c orders stateVal prevSpecVal schema name =
      convertTFSetToKCCSet c.withoutReferences orders stateVal prevSpecVal schema name := by
  have elems : (fun orders tfObj prevElem =>
      convertTFElemToKCCElem c orders tfObj prevElem name schema.elem) =
        fun orders tfObj prevElem =>
          convertTFElemToKCCElem c.withoutReferences orders tfObj prevElem name schema.elem := by
    funext orders tfObj prevElem
    exact convertTFElemToKCCElem_withoutReferences apart schema.elem
  unfold convertTFSetToKCCSet
  rw [containsReferenceField_false apart,
    containsReferenceField_false (not_begins_withoutReferences name), elems]
  rfl

/-- References have an influence on a set only if there is one at its path or below it, exactly
if no path of a reference merely begins with the same characters. -/
theorem set_falls_back_iff (c : Conversion) (name : String) :
    ((∀ orders stateVal prevSpecVal schema,
        convertTFSetToKCCSet c orders stateVal prevSpecVal schema name = some prevSpecVal →
        convertTFSetToKCCSet c.withoutReferences orders stateVal prevSpecVal schema name ≠
          some prevSpecVal → HasReferences c.rc name) ∧
      (¬ HasReferences c.rc name → ∀ orders stateVal prevSpecVal schema,
        convertTFSetToKCCSet c orders stateVal prevSpecVal schema name =
          convertTFSetToKCCSet c.withoutReferences orders stateVal prevSpecVal schema name)) ↔
      (BeginsReference c.rc name → HasReferences c.rc name) := by
  constructor
  · rintro ⟨fallsBack, -⟩ begins
    -- An empty set of the state, where the previous spec has an element.
    apply fallsBack .stored (.list []) (.list [.string ""]) (.mk { type := .set } .none)
    · rw [convertTFSetToKCCSet, (containsReferenceField_iff c.rc name).mpr begins]
      rfl
    · rw [convertTFSetToKCCSet, containsReferenceField_false (not_begins_withoutReferences name)]
      simp
  · intro below
    have same : ¬ HasReferences c.rc name → ∀ orders stateVal prevSpecVal schema,
        convertTFSetToKCCSet c orders stateVal prevSpecVal schema name =
          convertTFSetToKCCSet c.withoutReferences orders stateVal prevSpecVal schema name :=
      fun no _ _ _ schema => convertTFSetToKCCSet_withoutReferences (mt below no) schema
    refine ⟨?_, same⟩
    intro orders stateVal prevSpecVal schema returned differs
    by_contra no
    exact differs (same no orders stateVal prevSpecVal schema ▸ returned)

/-- A set of strings under `node`, in a resource that refers to another one in `node_pool`. -/
def tagged : Conversion where
  rc := { name := "google_tagged", kind := "Tagged",
          resourceReferences := [{ tfField := "node_pool" }] }
  ignoreOutputOnlySpecFields := false
  hash := fun _ value => match value with
    | .string text => some text.length
    | _ => none

def strings : Schema :=
  .mk { type := .set, optional := true } (.schema (.mk { type := .string } .none))

/-- The element that is live is not reported, because of a reference in a field with a longer
name. -/
theorem sibling_reference_hides_element :
    ¬ HasReferences tagged.rc "node" ∧
    convertTFSetToKCCSet tagged .stored (.list [.string "live"]) (.list [.string "declared"])
      strings "node" = some (.list [.string "declared"]) ∧
    convertTFSetToKCCSet tagged.withoutReferences .stored (.list [.string "live"])
      (.list [.string "declared"]) strings "node" =
        some (.list [.string "declared", .string "live"]) := by
  refine ⟨?_, ?_, ?_⟩
  · rintro ⟨refConfig, member, below⟩
    obtain rfl := mem_singleton.mp member
    rcases below with same | ⟨rest, same⟩
    · revert same
      decide
    · have chars := congrArg (fun path : String => path.toList[4]?) same
      simp at chars
  · have begins : containsReferenceField tagged.rc "node" = true :=
      (containsReferenceField_iff _ _).mpr ⟨_, mem_singleton_self _, by decide⟩
    unfold convertTFSetToKCCSet
    rw [begins]
    rfl
  · unfold convertTFSetToKCCSet
    rfl

end Frame

end ConfigConnector.Krmtotf
