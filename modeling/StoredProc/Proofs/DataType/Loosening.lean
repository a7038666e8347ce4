import StoredProc.Proofs.DataType.Conformance

/-! # Types up to their open parts

Opening parts of a type loosens it. Two types are compatible exactly if they are
loosened forms of one type, and that type can be computed: it takes from each side
what the other leaves open. On types without open parts compatibility is sameness of
structure, where an object is the map of its fields.
-/

namespace StoredProc.DataType

/-- Induction over a type and the types of its fields. -/
theorem inductionOn {motive : DataType → Prop}
    (prim : ∀ p, motive (.prim p))
    (object : ∀ fields, (∀ entry ∈ fields, motive entry.2) → motive (.object fields))
    (array : ∀ elem, motive elem → motive (.array elem))
    (optional : ∀ inner, motive inner → motive (.optional inner))
    (ref : ∀ store, motive (.ref store)) (any : motive .any) (nothing : motive .nothing) :
    ∀ type, motive type
  | .prim p => prim p
  | .object fields => object fields fun entry _ =>
      inductionOn prim object array optional ref any nothing entry.2
  | .array elem => array elem (inductionOn prim object array optional ref any nothing elem)
  | .optional inner =>
      optional inner (inductionOn prim object array optional ref any nothing inner)
  | .ref store => ref store
  | .any => any
  | .nothing => nothing
termination_by type => sizeOf type
decreasing_by
  all_goals simp_wf
  · have hsize := List.sizeOf_lt_of_mem ‹entry ∈ fields›
    obtain ⟨name, type⟩ := entry
    simp only [Prod.mk.sizeOf_spec] at hsize ⊢
    omega

/-- The second type has the structure of the first, but that, if this is allowed, some
of its parts are open. Objects are compared as maps. -/
inductive Matches (opening : Bool) : DataType → DataType → Prop
  | opened {type : DataType} (hopening : opening = true) : Matches opening type .any
  | prim {p : Primitive} : Matches opening (.prim p) (.prim p)
  | object {fields others : List (String × DataType)}
      (hnames : ∀ name, (field? fields name).isSome = (field? others name).isSome)
      (htypes : ∀ name type other, field? fields name = some type →
        field? others name = some other → Matches opening type other) :
      Matches opening (.object fields) (.object others)
  | array {elem other : DataType} (helem : Matches opening elem other) :
      Matches opening (.array elem) (.array other)
  | optional {inner other : DataType} (hinner : Matches opening inner other) :
      Matches opening (.optional inner) (.optional other)
  | ref {store : String} : Matches opening (.ref store) (.ref store)
  | any : Matches opening .any .any
  | nothing : Matches opening .nothing .nothing

/-- The second type is the first with some parts replaced by `any`. -/
def Loosens (type looser : DataType) : Prop := Matches true type looser

/-- Two types have the same structure. -/
def Same (type other : DataType) : Prop := Matches false type other

namespace Matches

variable {opening : Bool} {type other third : DataType}

theorem refl (type : DataType) : Matches opening type type := by
  induction type using inductionOn with
  | prim p => exact .prim
  | object fields ih =>
      refine .object (fun _ => rfl) ?_
      intro name type other htype hother
      obtain rfl : type = other := Option.some.inj (htype.symm.trans hother)
      exact ih _ (mem_of_field? htype)
  | array elem ih => exact .array ih
  | optional inner ih => exact .optional ih
  | ref store => exact .ref
  | any => exact .any
  | nothing => exact .nothing

/-- Parts that are opened one after the other may be opened at once. -/
theorem trans (h : Matches opening type other) (h' : Matches opening other third) :
    Matches opening type third := by
  induction h generalizing third with
  | opened hopening =>
      cases h' with
      | opened | any => exact .opened hopening
  | @object fields others hnames _ ih =>
      cases h' with
      | opened hopening => exact .opened hopening
      | @object _ thirds hnames' htypes' =>
          refine .object (fun name => (hnames name).trans (hnames' name)) ?_
          intro name type third htype hthird
          have hsome : (field? others name).isSome = true := by
            rw [← hnames, htype]
            rfl
          obtain ⟨middle, hmiddle⟩ := Option.isSome_iff_exists.mp hsome
          exact ih name type middle htype hmiddle (htypes' name middle third hmiddle hthird)
  | array _ ih =>
      cases h' with
      | opened hopening => exact .opened hopening
      | array helem => exact .array (ih helem)
  | optional _ ih =>
      cases h' with
      | opened hopening => exact .opened hopening
      | optional hinner => exact .optional (ih hinner)
  | prim | ref | any | nothing => exact h'

/-- A type loosens to one without open parts only if it has the same structure. -/
theorem same_of_isConcrete (h : Matches opening type other) (hconcrete : other.isConcrete = true) :
    Same type other := by
  induction h with
  | opened | any => cases hconcrete
  | prim => exact .prim
  | object hnames _ ih =>
      refine .object hnames fun name type other htype hother => ?_
      exact ih name type other htype hother (isConcrete_of_field? hconcrete hother)
  | array _ ih => exact .array (ih hconcrete)
  | optional _ ih => exact .optional (ih hconcrete)
  | ref => exact .ref
  | nothing => exact .nothing

end Matches

namespace Same

variable {type other : DataType}

/-- Types of one structure loosen each other. -/
theorem loosens (h : Same type other) : Loosens type other := by
  induction h with
  | opened hopening => cases hopening
  | prim => exact .prim
  | object hnames _ ih => exact .object hnames ih
  | array _ ih => exact .array ih
  | optional _ ih => exact .optional ih
  | ref => exact .ref
  | any => exact .any
  | nothing => exact .nothing

/-- Two types have the same structure either way round. -/
theorem symm (h : Same type other) : Same other type := by
  induction h with
  | opened hopening => cases hopening
  | prim => exact .prim
  | object hnames _ ih =>
      refine .object (fun name => (hnames name).symm) fun name type other htype hother => ?_
      exact ih name other type hother htype
  | array _ ih => exact .array ih
  | optional _ ih => exact .optional ih
  | ref => exact .ref
  | any => exact .any
  | nothing => exact .nothing

end Same

/-! ## The common form of two types -/

mutual

/-- The type that takes from each side what the other leaves open. -/
def meet : DataType → DataType → DataType
  | .any, other => other
  | .object fields, .object others => .object (meetFields fields others)
  | .array elem, .array other => .array (elem.meet other)
  | .optional inner, .optional other => .optional (inner.meet other)
  | type, _ => type

def meetFields : List (String × DataType) → List (String × DataType) → List (String × DataType)
  | [], _ => []
  | (name, type) :: rest, others =>
    (name, type.meet ((field? others name).getD .any)) :: meetFields rest others

end

variable {fields others : List (String × DataType)} {l r common : DataType}

/-- A field that one side lacks is open there. -/
theorem field?_meetFields (fields others : List (String × DataType)) (name : String) :
    field? (meetFields fields others) name =
      (field? fields name).map fun type => type.meet ((field? others name).getD .any) := by
  induction fields with
  | nil => rfl
  | cons entry rest ih =>
      obtain ⟨key, type⟩ := entry
      simp only [field?, meetFields, List.lookup_cons] at ih ⊢
      by_cases hkey : name = key
      · subst hkey
        simp
      · rw [beq_false_of_ne hkey]
        exact ih

theorem map_fst_meetFields (fields others : List (String × DataType)) :
    (meetFields fields others).map Prod.fst = fields.map Prod.fst := by
  induction fields with
  | nil => rfl
  | cons entry rest ih => simp [meetFields, ih]

/-- The fields of a meet come from the first side. -/
theorem mem_meetFields {entry : String × DataType} (h : entry ∈ meetFields fields others) :
    ∃ type, (entry.1, type) ∈ fields ∧
      entry.2 = type.meet ((field? others entry.1).getD .any) := by
  induction fields with
  | nil => cases h
  | cons first rest ih =>
      obtain ⟨key, type⟩ := first
      rcases List.mem_cons.mp h with rfl | hrest
      · exact ⟨type, List.mem_cons_self, rfl⟩
      · obtain ⟨found, hfound, heq⟩ := ih hrest
        exact ⟨found, List.mem_cons_of_mem _ hfound, heq⟩

/-- A meet has distinct fields if both sides have. -/
theorem isDistinct_meet (hl : l.isDistinct = true) (hr : r.isDistinct = true) :
    (l.meet r).isDistinct = true := by
  induction l using inductionOn generalizing r with
  | object fields ih =>
      cases r with
      | object others =>
          rw [meet, isDistinct, Bool.and_eq_true, map_fst_meetFields, fieldsDistinct_iff]
          refine ⟨by simpa using nodup_of_isDistinct hl, fun entry hentry => ?_⟩
          obtain ⟨type, htype, heq⟩ := mem_meetFields hentry
          rw [heq]
          apply ih _ htype
          · exact isDistinct_of_field? hl (field?_of_mem (nodup_of_isDistinct hl) htype)
          · cases hother : field? others entry.1 with
            | none => rfl
            | some other => exact isDistinct_of_field? hr hother
      | _ => exact hl
  | array elem ih =>
      cases r with
      | array other => exact ih hl hr
      | _ => exact hl
  | optional inner ih =>
      cases r with
      | optional other => exact ih hl hr
      | _ => exact hl
  | any => exact hr
  | _ => exact hl

/-- The fields on the other side of compatible object types. -/
theorem exists_field?_of_compatible
    (h : (DataType.object fields).compatible (.object others) = true) {name : String}
    {type : DataType} (hfield : field? fields name = some type) :
    ∃ other, field? others name = some other ∧ type.compatible other = true := by
  rw [compatible, Bool.and_eq_true, fieldsCompatible_iff] at h
  exact h.2 _ (mem_of_field? hfield)

/-- The common form of compatible types loosens to the first. -/
theorem meet_loosens_left (hl : l.isDistinct = true) (h : l.compatible r = true) :
    Loosens (l.meet r) l := by
  induction l using inductionOn generalizing r with
  | object fields ih =>
      cases r with
      | object others =>
          refine .object (fun name => ?_) ?_
          · rw [field?_meetFields, Option.isSome_map]
          · intro name type target htype htarget
            rw [field?_meetFields, htarget] at htype
            obtain ⟨other, hother, hcompatible⟩ := exists_field?_of_compatible h htarget
            obtain rfl : target.meet other = type := by simpa [hother] using htype
            exact ih _ (mem_of_field? htarget) (isDistinct_of_field? hl htarget) hcompatible
      | any => exact .refl _
      | _ => cases h
  | array elem ih =>
      cases r with
      | array other => exact .array (ih hl h)
      | any => exact .refl _
      | _ => cases h
  | optional inner ih =>
      cases r with
      | optional other => exact .optional (ih hl h)
      | any => exact .refl _
      | _ => cases h
  | any => exact .opened rfl
  | _ => exact .refl _

/-- The common form of compatible types loosens to the second. -/
theorem meet_loosens_right (hl : l.isDistinct = true) (h : l.compatible r = true) :
    Loosens (l.meet r) r := by
  induction l using inductionOn generalizing r with
  | object fields ih =>
      cases r with
      | object others =>
          have hsome := field?_isSome_eq (nodup_of_isDistinct hl) h
          refine .object (fun name => ?_) ?_
          · rw [field?_meetFields, Option.isSome_map, hsome]
          · intro name type target htype htarget
            have hfound : (field? fields name).isSome = true := by
              rw [← hsome, htarget]
              rfl
            obtain ⟨first, hfirst⟩ := Option.isSome_iff_exists.mp hfound
            obtain ⟨other, hother, hcompatible⟩ := exists_field?_of_compatible h hfirst
            obtain rfl : other = target := Option.some.inj (hother.symm.trans htarget)
            obtain rfl : first.meet other = type := by
              simpa [field?_meetFields, hfirst, htarget] using htype
            exact ih _ (mem_of_field? hfirst) (isDistinct_of_field? hl hfirst) hcompatible
      | any => exact .opened rfl
      | _ => cases h
  | array elem ih =>
      cases r with
      | array other => exact .array (ih hl h)
      | any => exact .opened rfl
      | _ => cases h
  | optional inner ih =>
      cases r with
      | optional other => exact .optional (ih hl h)
      | any => exact .opened rfl
      | _ => cases h
  | any => exact .refl _
  | prim p =>
      cases r with
      | prim q =>
          obtain rfl : p = q := by simpa [compatible] using h
          exact .prim
      | any => exact .opened rfl
      | _ => cases h
  | ref store =>
      cases r with
      | ref other =>
          obtain rfl : store = other := by simpa [compatible] using h
          exact .ref
      | any => exact .opened rfl
      | _ => cases h
  | nothing =>
      cases r with
      | nothing => exact .nothing
      | any => exact .opened rfl
      | _ => cases h

theorem compatible_any (type : DataType) : type.compatible .any = true := by
  cases type <;> rfl

theorem any_compatible (type : DataType) : DataType.any.compatible type = true := by
  cases type <;> rfl

/-- Two maps of fields with the same names have equally many of them. -/
theorem length_eq_of_isSome_eq (hnodup : (fields.map Prod.fst).Nodup)
    (hnodup' : (others.map Prod.fst).Nodup)
    (hnames : ∀ name, (field? fields name).isSome = (field? others name).isSome) :
    fields.length = others.length := by
  have hperm : (fields.map Prod.fst).Perm (others.map Prod.fst) := by
    rw [List.perm_ext_iff_of_nodup hnodup hnodup']
    intro name
    rw [← field?_isSome_iff, ← field?_isSome_iff, hnames]
  simpa using hperm.length_eq

/-- Loosened forms of one type are compatible. -/
theorem compatible_of_loosens (hleft : Loosens common l) (hright : Loosens common r)
    (hl : l.isDistinct = true) (hr : r.isDistinct = true) : l.compatible r = true := by
  induction hleft generalizing r with
  | opened | any => exact any_compatible r
  | prim =>
      cases hright with
      | opened => exact compatible_any _
      | prim => simp [compatible]
  | @object parts fields hnames _ ih =>
      cases hright with
      | opened => exact compatible_any _
      | @object _ others hnames' htypes' =>
          have hsame : ∀ name, (field? fields name).isSome = (field? others name).isSome :=
            fun name => (hnames name).symm.trans (hnames' name)
          rw [compatible, Bool.and_eq_true, beq_iff_eq, fieldsCompatible_iff]
          refine
            ⟨length_eq_of_isSome_eq (nodup_of_isDistinct hl) (nodup_of_isDistinct hr) hsame, ?_⟩
          rintro ⟨name, type⟩ hentry
          have htype := field?_of_mem (nodup_of_isDistinct hl) hentry
          obtain ⟨other, hother⟩ : ∃ other, field? others name = some other :=
            Option.isSome_iff_exists.mp (by rw [← hsame, htype]; rfl)
          obtain ⟨part, hpart⟩ : ∃ part, field? parts name = some part :=
            Option.isSome_iff_exists.mp (by rw [hnames, htype]; rfl)
          exact ⟨other, hother, ih name part type hpart htype (htypes' name part other hpart hother)
            (isDistinct_of_field? hl htype) (isDistinct_of_field? hr hother)⟩
  | array _ ih =>
      cases hright with
      | opened => exact compatible_any _
      | array helem => exact ih helem hl hr
  | optional _ ih =>
      cases hright with
      | opened => exact compatible_any _
      | optional hinner => exact ih hinner hl hr
  | ref =>
      cases hright with
      | opened => exact compatible_any _
      | ref => simp [compatible]
  | nothing =>
      cases hright with
      | opened | nothing => rfl

theorem exists_common (hl : l.isDistinct = true) (hr : r.isDistinct = true)
    (h : l.compatible r = true) :
    ∃ common, common.isDistinct = true ∧ Loosens common l ∧ Loosens common r :=
  ⟨l.meet r, isDistinct_meet hl hr, meet_loosens_left hl h, meet_loosens_right hl h⟩

/-! ## Comparison by kinds -/

mutual

/-- The comparison in steps: an open side settles it, then the kinds are compared, and
then the rule of the kind is applied. There is no answer if the kinds agree and no rule
applies. -/
def compare? (type other : DataType) : Option Bool :=
  if type.isAny || other.isAny then some true
  else if type.kind ≠ other.kind then some false
  else
    match type, other with
    | .prim _, _ => some true
    | .ref store, .ref store' => some (store == store')
    | .array elem, .array elem' => compare? elem elem'
    | .optional inner, .optional inner' => compare? inner inner'
    | .object fields, .object fields' =>
      if fields.length ≠ fields'.length then some false else compareFields? fields fields'
    | .nothing, _ => some true
    | _, _ => none

/-- Compare field by field up to the first difference. -/
def compareFields? : List (String × DataType) → List (String × DataType) → Option Bool
  | [], _ => some true
  | (name, type) :: rest, others =>
    match field? others name with
    | none => some false
    | some other =>
      match compare? type other with
      | some true => compareFields? rest others
      | outcome => outcome

end

theorem eq_of_primitive_name_eq {p q : Primitive} (h : p.name = q.name) : p = q := by
  revert h
  cases p <;> cases q <;> simp [Primitive.name]

/-- If each field can be compared, all of them together can. -/
theorem compareFields?_eq (hfields : ∀ entry ∈ fields, ∀ other,
      entry.2.compare? other = some (entry.2.compatible other)) :
    compareFields? fields others = some (fieldsCompatible fields others) := by
  induction fields with
  | nil => rfl
  | cons entry rest ih =>
      obtain ⟨name, type⟩ := entry
      rw [List.forall_mem_cons] at hfields
      rw [compareFields?, fieldsCompatible]
      cases hother : field? others name with
      | none => rfl
      | some other =>
          simp only [hfields.1 other, ih hfields.2]
          cases type.compatible other <;> rfl

/-- Comparing by kinds always gives an answer, and it is whether the types are
compatible. -/
theorem compare?_eq (l r : DataType) : l.compare? r = some (l.compatible r) := by
  induction l using inductionOn generalizing r with
  | prim p =>
      cases r with
      | prim q =>
          by_cases hpq : p = q
          · subst hpq
            simp [compare?, compatible, isAny]
          · have hname : p.name ≠ q.name := fun h => hpq (eq_of_primitive_name_eq h)
            simp [compare?, compatible, isAny, kind, hname, hpq]
      | any => rfl
      | _ => cases p <;> rfl
  | object fields ih =>
      cases r with
      | object others =>
          by_cases hlength : fields.length = others.length
          · simp [compare?, compatible, isAny, kind, hlength, compareFields?_eq ih]
          · simp [compare?, compatible, isAny, kind, hlength]
      | prim q => cases q <;> rfl
      | _ => rfl
  | array elem ih =>
      cases r with
      | array other => simp [compare?, compatible, isAny, kind, ih]
      | prim q => cases q <;> rfl
      | _ => rfl
  | optional inner ih =>
      cases r with
      | optional other => simp [compare?, compatible, isAny, kind, ih]
      | prim q => cases q <;> rfl
      | _ => rfl
  | ref store =>
      cases r with
      | prim q => cases q <;> rfl
      | _ => rfl
  | any => cases r <;> rfl
  | nothing =>
      cases r with
      | prim q => cases q <;> rfl
      | _ => rfl

/-- Compatibility is having a common form up to open parts. So it does not depend on the
order of the two types, it goes through opening parts on either side at any depth, and on
types without open parts it is sameness of structure. -/
theorem compatible_iff_exists_common {l r : DataType} (hl : l.isDistinct = true)
    (hr : r.isDistinct = true) :
    (l.compatible r = true ↔
      ∃ common, common.isDistinct = true ∧ Loosens common l ∧ Loosens common r) ∧
    l.compatible l = true ∧
    l.compatible r = r.compatible l ∧
    (DataType.any.compatible l = true ∧ l.compatible .any = true) ∧
    (∀ l' r' : DataType, l'.isDistinct = true → r'.isDistinct = true →
      Loosens l l' → Loosens r r' → l.compatible r = true → l'.compatible r' = true) ∧
    (l.isConcrete = true → r.isConcrete = true → (l.compatible r = true ↔ Same l r)) ∧
    l.compare? r = some (l.compatible r) := by
  refine ⟨⟨exists_common hl hr, ?_⟩, compatible_self hl, ?_,
    ⟨any_compatible l, compatible_any l⟩, ?_, ?_, compare?_eq l r⟩
  · rintro ⟨common, _, hleft, hright⟩
    exact compatible_of_loosens hleft hright hl hr
  · rw [Bool.eq_iff_iff]
    constructor
    · intro h
      obtain ⟨common, _, hleft, hright⟩ := exists_common hl hr h
      exact compatible_of_loosens hright hleft hr hl
    · intro h
      obtain ⟨common, _, hright, hleft⟩ := exists_common hr hl h
      exact compatible_of_loosens hleft hright hl hr
  · intro l' r' hl' hr' hopenl hopenr h
    obtain ⟨common, _, hleft, hright⟩ := exists_common hl hr h
    exact compatible_of_loosens (hleft.trans hopenl) (hright.trans hopenr) hl' hr'
  · intro hlconcrete hrconcrete
    constructor
    · intro h
      obtain ⟨common, _, hleft, hright⟩ := exists_common hl hr h
      have hlsame : Same common l := hleft.same_of_isConcrete hlconcrete
      exact hlsame.symm.trans (hright.same_of_isConcrete hrconcrete)
    · intro h
      exact compatible_of_loosens (.refl l) h.loosens hl hr

/-- A record of a user whose friends are not told from each other. -/
def ofOpenUser : DataType := .object [("friends", .array .any), ("name", .string)]

/-- A record of a user whose name may be anything, its fields in another order. -/
def ofUnnamedUser : DataType := .object [("name", .any), ("friends", .array (.ref "users"))]

/-- Each of the two leaves a field open that the other settles. -/
theorem compatible_iff_exists_common_ofUser :
    ofOpenUser.isDistinct = true ∧ ofUnnamedUser.isDistinct = true ∧
    ofOpenUser.compatible ofUnnamedUser = true ∧ ofUnnamedUser.compatible ofOpenUser = true ∧
    ∃ common, common.isDistinct = true ∧ Loosens common ofOpenUser ∧
      Loosens common ofUnnamedUser := by
  have hopen : ofOpenUser.isDistinct = true := by decide
  have hunnamed : ofUnnamedUser.isDistinct = true := by decide
  have hcompatible : ofOpenUser.compatible ofUnnamedUser = true := by decide
  obtain ⟨hcommon, _, hsymm, _⟩ := compatible_iff_exists_common hopen hunnamed
  exact ⟨hopen, hunnamed, hcompatible, hsymm ▸ hcompatible, hcommon.mp hcompatible⟩

end StoredProc.DataType
