import DocCoverage.Proofs.Json.Reading
import Mathlib.Data.List.Induction
import Mathlib.Data.String.Basic
/-!
# JSON — values in order

The fields of an object are in order if their names increase, and a value is
in order if this holds of all objects inside it. Such a list of fields is
known by its look-ups (`Fields.Increasing.ext`), setting a field keeps it in
order, and whatever is read from a text is in order (`ordered_of_parse?`). Any
value can be put in order (`Json.sorted`), and one in order is left as it is.
-/

namespace DocCoverage

/-! ## Fields -/

namespace Fields

variable {fields other : Fields} {name : String} {value : Json} {field : String × Json}

/-- The names of the fields increase. -/
def Increasing (fields : Fields) : Prop := fields.Pairwise fun a b => a.1 < b.1

theorem increasing_cons : Increasing (field :: fields) ↔
    (∀ other ∈ fields, field.1 < other.1) ∧ Increasing fields := List.pairwise_cons

theorem mem_of_get? (h : fields.get? name = some value) : (name, value) ∈ fields := by
  induction fields with
  | nil => cases h
  | cons first rest ih =>
    obtain ⟨key, old⟩ := first
    rw [get?] at h
    split at h
    next heq =>
      obtain rfl := Option.some.inj h
      rw [heq]
      exact List.mem_cons_self ..
    next => exact List.mem_cons_of_mem _ (ih h)

/-- A name smaller than all has no field. -/
theorem get?_eq_none_of_lt (h : ∀ field ∈ fields, name < field.1) : fields.get? name = none := by
  cases hget : fields.get? name with
  | none => rfl
  | some value => exact absurd (h _ (mem_of_get? hget)) (lt_irrefl name)

theorem Increasing.get?_of_mem (hinc : Increasing fields) (h : (name, value) ∈ fields) :
    fields.get? name = some value := by
  induction fields with
  | nil => cases h
  | cons first rest ih =>
    obtain ⟨hfirst, hrest⟩ := increasing_cons.mp hinc
    rw [get?]
    rcases List.mem_cons.mp h with heq | hmem
    · obtain rfl := heq
      exact if_pos rfl
    · rw [if_neg (ne_of_lt (hfirst _ hmem))]
      exact ih hrest hmem

/-- **Fields in order are known by their look-ups.** -/
theorem Increasing.ext (hinc : Increasing fields) (hinc' : Increasing other)
    (h : ∀ name, fields.get? name = other.get? name) : fields = other := by
  induction fields generalizing other with
  | nil =>
    cases other with
    | nil => rfl
    | cons first rest =>
      have hnone := h first.1
      rw [hinc'.get?_of_mem (List.mem_cons_self ..)] at hnone
      cases hnone
  | cons first rest ih =>
    obtain ⟨hfirst, hrest⟩ := increasing_cons.mp hinc
    have hget := hinc.get?_of_mem (List.mem_cons_self (a := first) ..)
    rw [h] at hget
    cases other with
    | nil => cases hget
    | cons second more =>
      obtain ⟨hsecond, hmore⟩ := increasing_cons.mp hinc'
      -- each of the two first fields is in the other list, so neither name is smaller
      have hback := hinc'.get?_of_mem (List.mem_cons_self (a := second) ..)
      rw [← h] at hback
      have heq : first = second := by
        rcases List.mem_cons.mp (mem_of_get? hget) with heq | hmem
        · exact heq
        · rcases List.mem_cons.mp (mem_of_get? hback) with heq | hmem'
          · exact heq.symm
          · exact absurd (hfirst _ hmem') (lt_asymm (hsecond _ hmem))
      obtain rfl := heq
      refine congrArg (first :: ·) (ih hrest hmore fun name => ?_)
      have hname := h name
      rw [get?, get?] at hname
      by_cases heq : first.1 = name
      · rw [← heq, get?_eq_none_of_lt hfirst, get?_eq_none_of_lt hsecond]
      · rwa [if_neg heq, if_neg heq] at hname

/-! ## Setting fields -/

theorem mem_insert (h : field ∈ insert name value fields) :
    field = (name, value) ∨ field ∈ fields := by
  induction fields with
  | nil => exact .inl (List.mem_singleton.mp h)
  | cons first rest ih =>
    obtain ⟨key, old⟩ := first
    rw [insert] at h
    split_ifs at h
    · exact (List.mem_cons.mp h).imp id (List.mem_cons_of_mem _)
    · exact List.mem_cons.mp h
    · rcases List.mem_cons.mp h with rfl | h
      · exact .inr (List.mem_cons_self ..)
      · exact (ih h).imp id (List.mem_cons_of_mem _)

/-- **Setting a field keeps the order.** -/
theorem Increasing.insert (hinc : Increasing fields) (name : String) (value : Json) :
    Increasing (insert name value fields) := by
  induction fields with
  | nil => exact List.pairwise_singleton _ _
  | cons first rest ih =>
    obtain ⟨key, old⟩ := first
    obtain ⟨hfirst, hrest⟩ := increasing_cons.mp hinc
    rw [Fields.insert]
    split_ifs with heq hlt
    · obtain rfl := heq
      exact increasing_cons.mpr ⟨hfirst, hrest⟩
    · refine increasing_cons.mpr ⟨fun field hfield => ?_, hinc⟩
      rcases List.mem_cons.mp hfield with rfl | hfield
      · exact hlt
      · exact lt_trans hlt (hfirst _ hfield)
    · refine increasing_cons.mpr ⟨fun field hfield => ?_, ih hrest⟩
      rcases mem_insert hfield with rfl | hfield
      · exact lt_of_le_of_ne (not_lt.mp hlt) heq
      · exact hfirst _ hfield

theorem insert_of_lt (h : ∀ field ∈ fields, field.1 < name) :
    insert name value fields = fields ++ [(name, value)] := by
  induction fields with
  | nil => rfl
  | cons first rest ih =>
    obtain ⟨key, old⟩ := first
    obtain ⟨hfirst, hrest⟩ := List.forall_mem_cons.mp h
    rw [insert, if_neg (ne_of_lt hfirst), if_neg (lt_asymm hfirst), ih hrest, List.cons_append]

/-- What is put in order is in order, and has no new fields. -/
theorem ofPairs_spec (pairs : List (String × Json)) :
    Increasing (ofPairs pairs) ∧ ∀ field ∈ ofPairs pairs, field ∈ pairs := by
  suffices h : ∀ set : Fields, Increasing set →
      Increasing (pairs.foldl (fun fields pair => insert pair.1 pair.2 fields) set) ∧
        ∀ field ∈ pairs.foldl (fun fields pair => insert pair.1 pair.2 fields) set,
          field ∈ set ∨ field ∈ pairs by
    obtain ⟨hinc, hmem⟩ := h [] List.Pairwise.nil
    exact ⟨hinc, fun field hfield => (hmem field hfield).resolve_left List.not_mem_nil⟩
  induction pairs with
  | nil => exact fun set hset => ⟨hset, fun field hfield => .inl hfield⟩
  | cons pair pairs ih =>
    intro set hset
    obtain ⟨hinc, hmem⟩ := ih (insert pair.1 pair.2 set) (hset.insert pair.1 pair.2)
    refine ⟨hinc, fun field hfield => ?_⟩
    rcases hmem field hfield with hfield | hfield
    · rcases mem_insert hfield with rfl | hfield
      · exact .inr (List.mem_cons_self ..)
      · exact .inl hfield
    · exact .inr (List.mem_cons_of_mem _ hfield)

theorem ofPairs_concat (pairs : List (String × Json)) (pair : String × Json) :
    ofPairs (pairs ++ [pair]) = insert pair.1 pair.2 (ofPairs pairs) :=
  List.foldl_concat _ _ _ _

theorem get?_ofPairs_eq_none_iff {pairs : List (String × Json)} :
    (ofPairs pairs).get? name = none ↔ name ∉ pairs.map Prod.fst := by
  induction pairs using List.reverseRecOn with
  | nil => exact iff_of_true rfl List.not_mem_nil
  | append_singleton pairs pair ih =>
    rw [ofPairs_concat, List.map_append, List.mem_append, List.map_singleton, List.mem_singleton]
    by_cases heq : pair.1 = name
    · rw [heq, get?_insert_self]
      simp
    · rw [get?_insert_of_ne heq, ih, or_iff_left (Ne.symm heq)]

/-- **A value is found by its name** if it is the only one of the name. -/
theorem get?_ofPairs {pairs : List (String × Json)} (hmem : (name, value) ∈ pairs)
    (honly : ∀ other, (name, other) ∈ pairs → other = value) :
    (ofPairs pairs).get? name = some value := by
  cases hget : (ofPairs pairs).get? name with
  | none =>
    exact absurd (List.mem_map_of_mem (f := Prod.fst) hmem) (get?_ofPairs_eq_none_iff.mp hget)
  | some other => rw [honly other ((ofPairs_spec pairs).2 _ (mem_of_get? hget))]

/-- Fields in order are left as they are. -/
theorem Increasing.ofPairs_eq (hinc : Increasing fields) : ofPairs fields = fields := by
  suffices h : ∀ set : Fields, Increasing (set ++ fields) →
      fields.foldl (fun fields pair => Fields.insert pair.1 pair.2 fields) set =
        set ++ fields from h [] hinc
  induction fields with
  | nil => simp
  | cons first rest ih =>
    intro set hset
    obtain ⟨-, hrest, hbelow⟩ := List.pairwise_append.mp hset
    have hlast : Fields.insert first.1 first.2 set = set ++ [first] :=
      insert_of_lt fun field hfield => hbelow field hfield first (List.mem_cons_self ..)
    have hfold := ih (increasing_cons.mp hrest).2 (set ++ [first]) (by simpa using hset)
    rw [← hlast] at hfold
    refine hfold.trans ?_
    rw [hlast, List.append_assoc, List.singleton_append]

end Fields

/-! ## Values -/

namespace Json

variable {value member inner : Json} {items : List Json} {fields : Fields} {p : Json → Prop}

/-- The values right inside a value. -/
def members : Json → List Json
  | arr items => items
  | obj fields => fields.map Prod.snd
  | _ => []

theorem sizeOf_lt_of_mem_members (h : member ∈ value.members) : sizeOf member < sizeOf value := by
  cases value with
  | arr items =>
    have hlt : sizeOf member < sizeOf items := List.sizeOf_lt_of_mem h
    simp only [arr.sizeOf_spec]
    omega
  | obj fields =>
    obtain ⟨⟨name, value⟩, hfield, rfl⟩ := List.mem_map.mp h
    have hlt : sizeOf (name, value) < sizeOf fields := List.sizeOf_lt_of_mem hfield
    simp only [obj.sizeOf_spec, Prod.mk.sizeOf_spec] at hlt ⊢
    omega
  | null | bool | int | float | str => cases h

/-- What holds of a value if it holds of all values right inside it holds of
all values. -/
theorem memberInduction (h : ∀ value, (∀ member ∈ value.members, p member) → p value)
    (value : Json) : p value :=
  h value fun member hmember =>
    have := sizeOf_lt_of_mem_members hmember
    memberInduction h member
termination_by sizeOf value

/-- The values inside a value, itself among them. -/
inductive Inside : Json → Json → Prop where
  | self (value : Json) : Inside value value
  | member {inner member value : Json} (hmember : member ∈ value.members)
      (hinner : Inside inner member) : Inside inner value

/-- Whether something holds of all values inside a value. -/
def All (p : Json → Prop) (value : Json) : Prop := ∀ inner, Inside inner value → p inner

theorem all_iff : All p value ↔ p value ∧ ∀ member ∈ value.members, All p member := by
  constructor
  · intro h
    exact ⟨h value (.self value), fun member hmember inner hinner =>
      h inner (.member hmember hinner)⟩
  · rintro ⟨hself, hmembers⟩ inner hinner
    cases hinner with
    | self => exact hself
    | member hmember hinner => exact hmembers _ hmember inner hinner

theorem All.self (h : All p value) : p value := (all_iff.mp h).1

/-- Whether the fields of every object inside a value are in order. -/
def Ordered (value : Json) : Prop :=
  All (fun inner => ∀ fields, inner = obj fields → Fields.Increasing fields) value

theorem ordered_obj : Ordered (obj fields) ↔
    Fields.Increasing fields ∧ ∀ field ∈ fields, Ordered field.2 := by
  rw [Ordered, all_iff]
  simp only [members, List.forall_mem_map, obj.injEq, forall_eq']
  rfl

theorem ordered_arr : Ordered (arr items) ↔ ∀ item ∈ items, Ordered item := by
  rw [Ordered, all_iff]
  simp only [members, reduceCtorEq, false_imp_iff, implies_true, true_and]
  rfl

/-- A value with nothing inside is in order. -/
theorem ordered_of_members_nil (h : value.members = []) : Ordered value := by
  rw [Ordered, all_iff, h]
  refine ⟨?_, fun member hmember => absurd hmember List.not_mem_nil⟩
  rintro fields rfl
  rw [List.map_eq_nil_iff.mp h]
  exact List.Pairwise.nil

theorem Ordered.get? (h : Ordered (obj fields)) {name : String}
    (hget : fields.get? name = some value) : Ordered value :=
  (ordered_obj.mp h).2 _ (Fields.mem_of_get? hget)

theorem Ordered.insert (h : Ordered (obj fields)) (name : String) (hvalue : Ordered value) :
    Ordered (obj (fields.insert name value)) := by
  obtain ⟨hinc, hfields⟩ := ordered_obj.mp h
  refine ordered_obj.mpr ⟨hinc.insert name value, fun field hfield => ?_⟩
  rcases Fields.mem_insert hfield with rfl | hfield
  · exact hvalue
  · exact hfields field hfield

/-! ## Putting values in order -/

mutual

/-- A value with the fields of every object inside put in order. -/
def sorted : Json → Json
  | arr items => arr (sortedItems items)
  | obj fields => object (sortedFields fields)
  | value => value

/-- Items, each put in order. -/
def sortedItems : List Json → List Json
  | [] => []
  | item :: more => item.sorted :: sortedItems more

/-- Fields, the value of each put in order. -/
def sortedFields : List (String × Json) → List (String × Json)
  | [] => []
  | (name, value) :: more => (name, value.sorted) :: sortedFields more

end

@[simp] theorem sortedItems_eq (items : List Json) : sortedItems items = items.map sorted := by
  induction items with
  | nil => rfl
  | cons item more ih => rw [sortedItems, ih, List.map_cons]

@[simp] theorem sortedFields_eq (fields : Fields) :
    sortedFields fields = fields.map fun field => (field.1, field.2.sorted) := by
  induction fields with
  | nil => rfl
  | cons field more ih => rw [sortedFields, ih, List.map_cons]

theorem sorted_of_isScalar (h : value.isScalar = true) : value.sorted = value := by
  cases value with
  | arr | obj => cases h
  | null | bool | int | float | str => rfl

/-- A value in order is left as it is. -/
theorem Ordered.sorted_eq (h : Ordered value) : value.sorted = value := by
  induction value using memberInduction with | h value ih => ?_
  cases value with
  | null | bool | int | float | str => rfl
  | arr items =>
    have hitems : items.map sorted = items :=
      (List.map_congr_left fun item hitem => ih item hitem (ordered_arr.mp h item hitem)).trans
        (List.map_id _)
    rw [sorted, sortedItems_eq, hitems]
  | obj fields =>
    obtain ⟨hinc, hvalues⟩ := ordered_obj.mp h
    have hfields : (fields.map fun field => (field.1, field.2.sorted)) = fields :=
      (List.map_congr_left fun field hfield => congrArg (Prod.mk field.1)
        (ih field.2 (List.mem_map_of_mem hfield) (hvalues field hfield))).trans (List.map_id _)
    rw [sorted, sortedFields_eq, hfields, object, hinc.ofPairs_eq]

/-! ## What is read is in order -/

theorem ordered_object {pairs : List (String × Json)} (h : ∀ pair ∈ pairs, Ordered pair.2) :
    Ordered (object pairs) := by
  obtain ⟨hinc, hmem⟩ := Fields.ofPairs_spec pairs
  exact ordered_obj.mpr ⟨hinc, fun field hfield => h field (hmem field hfield)⟩

theorem ordered_of_isScalar (h : value.isScalar = true) : Ordered value := by
  cases value with
  | arr | obj => cases h
  | null | bool | int | float | str => exact ordered_of_members_nil rfl

/-- **What is read from a text is in order.** -/
theorem ordered_of_parse? {text : String} (h : parse? text = some value) : Ordered value := by
  have hread := yields_value? (p := fun _ => Ordered) (fun _ _ => ordered_of_isScalar)
    (fun _ _ => ordered_arr.mpr) (fun _ _ => ordered_object)
  exact of_parse? (hread maximumDepth) h

end Json

end DocCoverage
