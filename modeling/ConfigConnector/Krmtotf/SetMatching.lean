import ConfigConnector.Krmtotf.Pruning

/- The order and the elements of a converted set. -/
namespace ConfigConnector.Krmtotf

open K8s GoMap Option

variable {m : AList fun _ : Int => Value} {value : Value} {orders : Orders}
  {prev items : List Value}

/-- The elements of the state that previous elements with these hashes get, each at most
once. -/
def usedElems : List Int → (AList fun _ : Int => Value) → List (Option Value)
  | [], _ => []
  | h :: rest, stateElems => stateElems.lookup h :: usedElems rest (stateElems.erase h)

variable {convertElem : Orders → Value → Value → Option Value} {asTF : Value → Option Value}
  {hash : Value → Option Int} {left : AList fun _ : Int => Value}

section Used

theorem length_usedElems (hashes : List Int) (m : AList fun _ : Int => Value) :
    (usedElems hashes m).length = hashes.length := by
  induction hashes generalizing m with
  | nil => rfl
  | cons h rest ih => rw [usedElems, List.length_cons, List.length_cons, ih]

theorem lookup_of_used {hashes : List Int} {i : Nat}
    (used : (usedElems hashes m)[i]? = some (some value)) :
    ∃ h, hashes[i]? = some h ∧ m.lookup h = some value := by
  induction hashes generalizing m i with
  | nil => cases used
  | cons first rest ih =>
    cases i with
    | zero => exact ⟨first, rfl, Option.some.inj used⟩
    | succ i =>
      obtain ⟨h, at_i, found⟩ := ih used
      exact ⟨h, at_i, (lookup_of_erase found).2⟩

/-- Where what is under a hash has that hash, an element is used for the first previous element
with its hash and for no other. -/
theorem used_once {hashes : List Int}
    (keyed : ∀ h value, m.lookup h = some value → hash value = some h) {h : Int}
    (found : m.lookup h = some value) (member : h ∈ hashes) :
    ∃! i : Nat, (usedElems hashes m)[i]? = some (some value) := by
  induction hashes generalizing m with
  | nil => cases member
  | cons first rest ih =>
    by_cases same : h = first
    · subst same
      refine ⟨0, congrArg some found, ?_⟩
      intro i used
      cases i with
      | zero => rfl
      | succ i =>
        obtain ⟨other, -, later⟩ := lookup_of_used (i := i) used
        obtain ⟨differs, before⟩ := lookup_of_erase later
        have hashed := (keyed other value before).symm.trans (keyed h value found)
        exact absurd (Option.some.inj hashed) differs
    · have later : (m.erase first).lookup h = some value := by
        rw [AList.lookup_erase_ne same, found]
      obtain ⟨i, used, unique⟩ := ih (fun k v held => keyed k v (lookup_of_erase held).2) later
        ((List.mem_cons.mp member).resolve_left same)
      refine ⟨i + 1, used, ?_⟩
      intro j usedToo
      cases j with
      | zero =>
        have here : m.lookup first = some value := Option.some.inj usedToo
        have hashed := (keyed first value here).symm.trans (keyed h value found)
        exact absurd (Option.some.inj hashed).symm same
      | succ j => exact congrArg (· + 1) (unique j usedToo)

/-- The loop over the previous elements, by their hashes. -/
theorem convertPrevious_used {converted : List Value}
    (done : convertPrevious hash asTF convertElem orders prev m = some (converted, left))
    (noNil : ∀ prevElem ∈ prev, prevElem ≠ .null) :
    ∃ hashes, prev.map (fun prevElem => (asTF prevElem).bind hash) = hashes.map some ∧
      List.Forall₂ (fun pair elem => ∃ orders,
        convertElem orders (pair.2.getD (.map [])) pair.1 = some elem)
        (prev.zip (usedElems hashes m)) converted ∧
      ∀ h, left.lookup h = if h ∈ hashes then none else m.lookup h := by
  induction prev generalizing orders m converted with
  | nil =>
    cases done
    exact ⟨[], rfl, .nil, fun h => by simp⟩
  | cons prevElem rest ih =>
    have present : ¬ prevElem.isNil := by
      rw [Value.isNil_iff]
      exact noNil prevElem (.head _)
    rw [convertPrevious, if_neg present] at done
    obtain ⟨tf, asTerraform, done⟩ := bind_eq_some_iff.mp done
    obtain ⟨prevHash, hashed, done⟩ := bind_eq_some_iff.mp done
    obtain ⟨elem, elemDone, done⟩ := bind_eq_some_iff.mp done
    obtain ⟨⟨others, leftOver⟩, below, same⟩ := bind_eq_some_iff.mp done
    cases same
    obtain ⟨hashes, each, converts, kept⟩ := ih below fun other member =>
      noNil other (.tail _ member)
    have first : (asTF prevElem).bind hash = some prevHash := by rw [asTerraform]; exact hashed
    refine ⟨prevHash :: hashes, congrArg₂ List.cons first each, .cons ⟨_, elemDone⟩ converts, ?_⟩
    intro h
    rw [kept h]
    by_cases erased : h = prevHash
    · rw [erased, AList.lookup_erase]
      simp
    · simp [erased, AList.lookup_erase_ne erased]

end Used

/-- How the result for a set comes about. The element of the state that a previous element gets
is in `used`, those that none gets are `unmatched`; `olds` and `news` are what they become. -/
structure SetMatching (hash prevHash : Value → Option Int) (converts : Value → Value → Value → Prop)
    (items prev : List Value) (used : List (Option Value)) (olds unmatched news : List Value) :
    Prop where
  length : used.length = prev.length
  /-- One entry for each previous element, in order. -/
  inOrder : List.Forall₂ (fun pair old => converts (pair.2.getD (.map [])) pair.1 old)
    (prev.zip used) olds
  /-- A previous element only gets an element with its hash. -/
  sameHash : ∀ (i : Nat) prevElem value, prev[i]? = some prevElem → used[i]? = some (some value) →
    value ∈ items ∧ hash value = prevHash prevElem
  once : ∀ value ∈ items, ∀ prevElem ∈ prev, hash value = prevHash prevElem →
    ∃! i : Nat, used[i]? = some (some value)
  leftOver : unmatched.Perm (items.filter fun value => prev.all fun prevElem =>
    hash value != prevHash prevElem)
  appended : List.Forall₂ (fun value new => converts value .null new) unmatched news

section Elements

theorem nodup_left (order : RangeOrder)
    (keyed : ∀ h value, left.lookup h = some value → hash value = some h) :
    ((range order left).map (·.2)).Nodup := by
  have keys := range_keys_nodup order left
  rw [List.Nodup, List.pairwise_map] at keys ⊢
  refine keys.imp_of_mem ?_
  rintro ⟨h, value⟩ ⟨k, other⟩ first second differs rfl
  have firstHash := keyed h value ((mem_range order left h value).mp first)
  have secondHash := keyed k value ((mem_range order left k value).mp second)
  exact differs (Option.some.inj (firstHash.symm.trans secondHash))

theorem convertSetElems_matching {elems : List Value}
    (done : convertSetElems hash asTF convertElem orders items prev = some elems)
    (noNil : ∀ prevElem ∈ prev, prevElem ≠ .null) (nodup : items.Nodup)
    (injective : ∀ a ∈ items, ∀ b ∈ items, hash a = hash b → a = b)
    (hashed : ∀ item ∈ items, ∃ h, hash item = some h) :
    ∃ used olds unmatched news, elems = olds ++ news ∧
      SetMatching hash (fun prevElem => (asTF prevElem).bind hash)
        (fun value prevElem elem => ∃ orders, convertElem orders value prevElem = some elem)
        items prev used olds unmatched news := by
  obtain ⟨m, olds, left, news, mapped, previous, newDone, rfl⟩ := convertSetElems_eq_some.mp done
  obtain ⟨hashes, each, converts, kept⟩ := convertPrevious_used previous noNil
  have keyed : ∀ h value, m.lookup h = some value → hash value = some h :=
    fun h value found => (mem_of_stateHashMap mapped found).2
  have hash_mem : ∀ h, h ∈ hashes ↔ ∃ prevElem ∈ prev, (asTF prevElem).bind hash = some h := by
    intro h
    rw [← List.mem_map, each, List.mem_map_of_injective (Option.some_injective _)]
  refine ⟨usedElems hashes m, olds, (range orders.here left).map (·.2), news, rfl, ?_⟩
  constructor
  · rw [length_usedElems]
    simpa using (congrArg List.length each).symm
  · exact converts
  · intro i prevElem value atIndex used
    obtain ⟨h, hashIndex, found⟩ := lookup_of_used used
    obtain ⟨member, here⟩ := mem_of_stateHashMap mapped found
    have prevHashed := congrArg (·[i]?) each
    simp only [List.getElem?_map, atIndex, hashIndex, Option.map_some, Option.some.injEq]
      at prevHashed
    exact ⟨member, by rw [here, prevHashed]⟩
  · intro value member prevElem inPrev same
    obtain ⟨h, here⟩ := hashed value member
    exact used_once keyed ((lookup_stateHashMap mapped injective).mpr ⟨member, here⟩)
      ((hash_mem h).mpr ⟨prevElem, inPrev, same ▸ here⟩)
  · have keptKeyed : ∀ h value, left.lookup h = some value → hash value = some h :=
      fun h value found => keyed h value ((convertPrevious_spec previous).2 found)
    refine (List.perm_ext_iff_of_nodup (nodup_left _ keptKeyed) (nodup.filter _)).mpr ?_
    intro value
    rw [List.mem_filter, List.all_eq_true, List.mem_map]
    constructor
    · rintro ⟨⟨h, other⟩, member, rfl⟩
      rw [mem_range, kept h] at member
      split at member
      · cases member
      rename_i fresh
      obtain ⟨inItems, here⟩ := mem_of_stateHashMap mapped member
      refine ⟨inItems, fun prevElem inPrev => ?_⟩
      rw [bne_iff_ne, here]
      exact fun same => fresh ((hash_mem h).mpr ⟨prevElem, inPrev, same.symm⟩)
    · rintro ⟨inItems, apart⟩
      obtain ⟨h, here⟩ := hashed value inItems
      have fresh : h ∉ hashes := by
        intro member
        obtain ⟨prevElem, inPrev, same⟩ := (hash_mem h).mp member
        exact (bne_iff_ne.mp (apart prevElem inPrev)) (here.trans same.symm)
      refine ⟨(h, value), ?_, rfl⟩
      rw [mem_range, kept h, if_neg fresh]
      exact (lookup_stateHashMap mapped injective).mpr ⟨inItems, here⟩
  · have values : (range orders.here left).map (·.2) =
        (range orders.here left).zipIdx.map (·.1.2) := by
      conv_lhs => rw [← List.zipIdx_map_fst 0 (range orders.here left), List.map_map]
      rfl
    rw [values, List.forall₂_map_left_iff]
    exact newDone.imp fun _ _ converted => ⟨_, converted⟩

end Elements

section Result

variable (c : Conversion) (a : Attributes) (elem : Elem) (name : String)

/-- Nothing is reported of an element of the state that is new. -/
def blankElem (value : Value) : Bool :=
  match elem with
  | .resource fields => blankFields c value.entries [] name none fields
  | _ => false

/-- The set is reported in the order of the previous spec, and nothing of it is lost. -/
def KeepsSet (orders : Orders) (items : List Value) (prevSpecVal : Value) : Prop :=
  ∃ result used olds unmatched news,
    convertTFSetToKCCSet c orders (.list items) prevSpecVal (.mk a elem) name =
      some (.list result) ∧
    result = olds ++ news ∧
    SetMatching (c.hash (.mk a elem)) (fun prevElem => (prevAsTF prevElem elem).bind
        (c.hash (.mk a elem)))
      (fun value prevElem entry => ∃ orders,
        convertTFElemToKCCElem c orders value prevElem name elem = some entry)
      items prevSpecVal.items used olds unmatched news ∧
    List.Forall₂ (fun value new => blankElem c elem name value = false → new ≠ .null) unmatched
      news ∧
    ∀ element, elem = .schema element →
      ∀ value, value ∈ result ↔ value ∈ prevSpecVal.items ∨ value ∈ items

variable {c a elem name}

theorem convertTFSetToKCCSet_eq {prevSpecVal : Value}
    (apart : ¬ BeginsReference c.rc name) (filled : items ≠ []) (typed : elem ≠ .none)
    {retObj : Value}
    (done : convertTFSetToKCCSet c orders (.list items) prevSpecVal (.mk a elem) name =
      some retObj) :
    ∃ result, retObj = .list result ∧ convertSetElems (c.hash (.mk a elem)) (prevAsTF · elem)
      (fun orders tfObj prevElem => convertTFElemToKCCElem c orders tfObj prevElem name elem) orders
      items prevSpecVal.items = some result := by
  have sameHash : hashElem c (.mk a elem) = c.hash (.mk a elem) := by
    cases elem with
    | none => exact absurd rfl typed
    | schema _ | resource _ => rfl
  unfold convertTFSetToKCCSet at done
  rw [containsReferenceField_false apart, Bool.false_and, if_neg (by decide), sameHash] at done
  obtain ⟨first, rest, rfl⟩ := List.exists_cons_of_ne_nil filled
  obtain ⟨result, elemsDone, same⟩ := bind_eq_some_iff.mp done
  obtain ⟨e, es, rfl⟩ := List.exists_cons_of_ne_nil (convertSetElems_ne_nil elemsDone filled)
  exact ⟨e :: es, (Option.some.inj same).symm, elemsDone⟩

/-- What is reported of an object becomes an object, and a primitive stays what it is. -/
theorem new_ne_null {new : Value}
    (done : convertTFElemToKCCElem c orders value .null name elem = some new)
    (primitive : ∀ element, elem = .schema element → value ≠ .null) (typed : elem ≠ .none)
    (reports : blankElem c elem name value = false) : new ≠ .null := by
  cases elem with
  | none => exact absurd rfl typed
  | schema element =>
    cases done
    exact primitive element rfl
  | resource fields =>
    obtain ⟨entries, converted, rfl⟩ := map_eq_some_iff.mp done
    have filled : entries ≠ [] := by
      rw [ne_eq, blankFields_iff converted, Bool.not_eq_true]
      exact reports
    rw [asObject_of_ne_nil filled]
    simp

/-- A set of primitives is the previous one and what is new. -/
theorem primitive_entries {element : Schema} {olds unmatched news : List Value}
    {used : List (Option Value)} {prevHash : Value → Option Int}
    (matching : SetMatching hash prevHash
      (fun value prevElem entry => ∃ orders,
        convertTFElemToKCCElem c orders value prevElem name (.schema element) = some entry)
      items prev used olds unmatched news)
    (noNil : ∀ prevElem ∈ prev, prevElem ≠ .null) : olds = prev ∧ news = unmatched := by
  constructor
  · have same := Fallible.map_eq_of_forall₂ (f := Prod.fst) matching.inOrder (by
      rintro ⟨prevElem, elem⟩ member old ⟨_, converted⟩
      have present : ¬ prevElem.isNil := by
        rw [Value.isNil_iff]
        exact noNil prevElem (List.of_mem_zip member).1
      rw [convertTFElemToKCCElem, if_neg present] at converted
      exact Option.some.inj converted)
    rw [← same, List.map_fst_zip (Nat.le_of_eq matching.length.symm)]
  · have same := Fallible.map_eq_of_forall₂ (f := id) matching.appended (by
      rintro value - new ⟨_, converted⟩
      exact Option.some.inj converted)
    rw [← same, List.map_id]

/-- Without references at or near it, a set that is not empty in the state keeps the order of
the previous spec and loses nothing. -/
theorem set_keeps_order (c : Conversion) (a : Attributes) (elem : Elem) (name : String)
    (orders : Orders) (items : List Value) (prevSpecVal : Value) (set : isSpecSet a = true)
    (apart : ¬ BeginsReference c.rc name) (filled : items ≠ []) (nodup : items.Nodup)
    (noNil : ∀ prevElem ∈ prevSpecVal.items, prevElem ≠ .null)
    (fits : StateFits c name (.list items) (.mk a elem))
    (prevFits : PrevFits c prevSpecVal (.mk a elem))
    (injective : ∀ first ∈ items ++ prevSpecVal.items.filterMap (prevAsTF · elem),
      ∀ second ∈ items ++ prevSpecVal.items.filterMap (prevAsTF · elem),
      c.hash (.mk a elem) first = c.hash (.mk a elem) second → first = second) :
    KeepsSet c a elem name orders items prevSpecVal := by
  have type : a.type = .set := by
    simp only [isSpecSet, Bool.and_eq_true, decide_eq_true_eq] at set
    exact set.1.1
  rw [StateFits, type] at fits
  obtain ⟨_, same, hashed, itemsFit⟩ := fits.resolve_left (by simp)
  cases same
  rw [PrevFits] at prevFits
  have typed : elem ≠ .none := by
    rintro rfl
    rw [ItemsFit] at itemsFit
    exact filled itemsFit
  have below : ConvertsBelow c name elem :=
    fun fields _ orders _ _ _ fit prev => convertedEntries_isSome fit prev orders
  obtain ⟨retObj, done⟩ := convertTFSetToKCCSet_isSome set below (hashed set) itemsFit
    (prevFits (.inr type)) orders
  obtain ⟨result, rfl, elems⟩ := convertTFSetToKCCSet_eq apart filled typed done
  have itemsInjective : ∀ first ∈ items, ∀ second ∈ items,
      c.hash (.mk a elem) first = c.hash (.mk a elem) second → first = second :=
    fun first inFirst second inSecond => injective first (List.mem_append_left _ inFirst) second
      (List.mem_append_left _ inSecond)
  obtain ⟨used, olds, unmatched, news, parts, matching⟩ :=
    convertSetElems_matching elems noNil nodup
    itemsInjective (hashed set)
  refine ⟨result, used, olds, unmatched, news, done, parts, matching, ?_, ?_⟩
  · apply Fallible.forall₂_imp_of_mem matching.appended
    rintro value member new ⟨_, converted⟩ reports
    have inItems := (List.mem_filter.mp (matching.leftOver.mem_iff.mp member)).1
    refine new_ne_null converted ?_ typed reports
    rintro element rfl
    rw [ItemsFit] at itemsFit
    exact itemsFit.2 value inItems
  · rintro element rfl value
    obtain ⟨rfl, rfl⟩ := primitive_entries matching noNil
    rw [parts, List.mem_append, matching.leftOver.mem_iff, List.mem_filter]
    constructor
    · exact Or.imp_right And.left
    · rintro (inPrev | inItems)
      · exact .inl inPrev
      -- An element with the hash of a previous one is that one.
      by_cases old : ∃ prevElem ∈ prevSpecVal.items,
          c.hash (.mk a (.schema element)) value = c.hash (.mk a (.schema element)) prevElem
      · obtain ⟨prevElem, inPrev, same⟩ := old
        have equal := injective value (List.mem_append_left _ inItems) prevElem
          (List.mem_append_right _ (List.mem_filterMap.mpr ⟨prevElem, inPrev, rfl⟩)) same
        exact .inl (equal ▸ inPrev)
      · refine .inr ⟨inItems, List.all_eq_true.mpr fun prevElem inPrev => bne_iff_ne.mpr ?_⟩
        exact fun same => old ⟨prevElem, inPrev, same⟩

theorem set_keeps_order_strings :
    KeepsSet tagged.withoutReferences { type := .set, optional := true }
      (.schema (.mk { type := .string } .none)) "node" .stored
      [.string "live", .string "declared"] (.list [.string "declared"]) := by
  apply set_keeps_order
  · decide
  · exact not_begins_withoutReferences "node"
  · exact List.cons_ne_nil _ _
  · simp
  · simp [Value.items]
  · rw [StateFits]
    refine .inr ⟨_, rfl, fun _ item member => ?_, ?_⟩
    · rcases List.mem_pair.mp member with rfl | rfl
      · exact ⟨4, rfl⟩
      · exact ⟨8, rfl⟩
    · rw [ItemsFit]
      exact ⟨fun one => absurd one (by decide), by simp⟩
  · rw [PrevFits]
    intro _
    rw [PrevItemsFit]
    intro _ item member _
    obtain rfl := List.mem_singleton.mp member
    exact ⟨8, rfl⟩
  · have two : ∀ value : Value, value ∈ [Value.string "live", .string "declared"] ++
        (Value.items (.list [.string "declared"])).filterMap some →
        value = .string "live" ∨ value = .string "declared" := by
      intro value member
      simpa [Value.items] using member
    intro first inFirst second inSecond same
    rcases two first inFirst with rfl | rfl <;> rcases two second inSecond with rfl | rfl
    · rfl
    · exact absurd same (by decide)
    · exact absurd same (by decide)
    · rfl

/-- Nothing is left of a previous set when the state is empty, and an element with nothing but
zero values becomes null. -/
theorem empty_set_dropped :
    convertTFSetToKCCSet tagged.withoutReferences .stored (.list []) (.list [.string "declared"])
      strings "node" = some .null ∧
    convertTFSetToKCCSet { tagged.withoutReferences with hash := fun _ _ => some 0 } .stored
      (.list [.map [("name", .string "")]]) .null
      (.mk { type := .set, optional := true }
        (.resource [("name", .mk { type := .string, optional := true } .none)])) "node" =
      some (.list [.null]) := by
  constructor
  · unfold convertTFSetToKCCSet
    rw [containsReferenceField_false (not_begins_withoutReferences _)]
    rfl
  · unfold convertTFSetToKCCSet
    rw [Value.isNil]
    simp only [Bool.not_true, Bool.and_false]
    rfl

end Result

end ConfigConnector.Krmtotf
