import StoredProc.Proofs.Compile.StoreAppends
import StoredProc.Proofs.Compile.TypeSoundness
import StoredProc.Proofs.DataType.FieldOrder
import StoredProc.Proofs.DataType.Loosening

/-! # Expressions under other targets

The target of an expression reaches the elements and fields of literals; behind a name it
is only compared with the type that is found. So an expression keeps its code under every
target that goes with its parts. Two cases are of interest: opening parts of the target
keeps an expression accepted, and an expression that has been given a type is accepted
with this type as its target, with the same code.
-/

namespace StoredProc

namespace DataType

/-! ## Types -/

variable {type looser : DataType} {fields others : List (String × DataType)}

/-- A target that is loosened goes with all that it went with. -/
theorem Loosens.compatible (h : Loosens type looser) (hdistinct : type.isDistinct = true)
    (hdistinct' : looser.isDistinct = true) {found : DataType}
    (hfits : type.compatible found = true) : looser.compatible found = true := by
  induction h generalizing found with
  | opened | any => exact any_compatible found
  | @object fields others hnames _ ih =>
      cases found with
      | any => exact compatible_any _
      | object parts =>
          have hlength := length_eq_of_isSome_eq (nodup_of_isDistinct hdistinct)
            (nodup_of_isDistinct hdistinct') hnames
          rw [DataType.compatible, Bool.and_eq_true, beq_iff_eq, fieldsCompatible_iff] at hfits ⊢
          refine ⟨hlength ▸ hfits.1, ?_⟩
          rintro ⟨name, other⟩ hentry
          have hother := field?_of_mem (nodup_of_isDistinct hdistinct') hentry
          obtain ⟨first, hfirst⟩ : ∃ first, field? fields name = some first :=
            Option.isSome_iff_exists.mp (by rw [hnames, hother]; rfl)
          obtain ⟨part, hpart, hcompatible⟩ := hfits.2 _ (mem_of_field? hfirst)
          exact ⟨part, hpart, ih name first other hfirst hother
            (isDistinct_of_field? hdistinct hfirst) (isDistinct_of_field? hdistinct' hother)
            hcompatible⟩
      | _ => cases hfits
  | array _ ih =>
      cases found with
      | any => exact compatible_any _
      | array part =>
          rw [DataType.compatible] at hfits ⊢
          exact ih hdistinct hdistinct' hfits
      | _ => cases hfits
  | optional _ ih =>
      cases found with
      | any => exact compatible_any _
      | optional part =>
          rw [DataType.compatible] at hfits ⊢
          exact ih hdistinct hdistinct' hfits
      | _ => cases hfits
  | prim | ref | nothing => exact hfits

/-- The types of fields are loosened with the type of their object. -/
theorem Loosens.field (h : Loosens (.object fields) (.object others)) {name : String}
    (hname : (field? fields name).isSome = true) :
    ∃ type other, field? fields name = some type ∧ field? others name = some other ∧
      Loosens type other := by
  cases h with
  | object hnames htypes =>
      obtain ⟨type, htype⟩ := Option.isSome_iff_exists.mp hname
      obtain ⟨other, hother⟩ := Option.isSome_iff_exists.mp (hnames name ▸ hname)
      exact ⟨type, other, htype, hother, htypes name type other htype hother⟩

end DataType

open DataType (Loosens)

variable {m : Manifest} {scope : Scope} {target other type : DataType} {code : Code}

/-- No value stands where nothing is expected. -/
theorem Elaborates.isNothing_eq_false {expr : Expr}
    (h : Elaborates m scope (.value target expr type) code) : target.isNothing = false := by
  cases h with
  | ofVariable _ hsome => exact hsome
  | append | array | openArray | object | openObject => rfl
  | all _ _ hfits | count _ _ hfits | rows _ _ hfits | pointers _ _ hfits | text hfits
  | int hfits | double hfits =>
      cases target with
      | nothing => cases hfits
      | _ => rfl

namespace Expr

/-- Induction over the values that a literal is made of. -/
theorem literalInduction {motive : Expr → Prop}
    (reference : ∀ loc name dots, motive (.reference loc name dots))
    (string : ∀ loc value, motive (.string loc value))
    (number : ∀ loc text, motive (.number loc text))
    (array : ∀ loc elements, (∀ element ∈ elements, motive element) → motive (.array loc elements))
    (object : ∀ loc fields, (∀ entry ∈ fields, motive entry.2) → motive (.object loc fields))
    (lambda : ∀ loc row body, motive (.lambda loc row body)) (expr : Expr) : motive expr := by
  cases expr with
  | reference loc name dots => exact reference loc name dots
  | string loc value => exact string loc value
  | number loc text => exact number loc text
  | array loc elements =>
      refine array loc elements fun element _ => ?_
      exact literalInduction reference string number array object lambda element
  | object loc fields =>
      refine object loc fields fun entry _ => ?_
      exact literalInduction reference string number array object lambda entry.2
  | lambda loc row body => exact lambda loc row body
termination_by sizeOf expr
decreasing_by
  · have hsize := List.sizeOf_lt_of_mem ‹element ∈ elements›
    simp only [Expr.array.sizeOf_spec]
    omega
  · have hsize := List.sizeOf_lt_of_mem ‹entry ∈ fields›
    obtain ⟨name, value⟩ := entry
    simp only [Prod.mk.sizeOf_spec, Expr.object.sizeOf_spec] at hsize ⊢
    omega

/-! ## References -/

variable {loc : Location} {name : String}

/-- Code for one target is code for another that is compatible with its type. -/
theorem checked_retarget {found : Code} {result : DataType}
    (h : checked loc target found result = .ok (code, type))
    (hfits : other.compatible type = true) :
    checked loc other found result = .ok (code, type) := by
  obtain ⟨hresult, -⟩ := checked_eq_ok h
  cases hresult
  exact if_pos hfits

/-- All records of a store may be wanted for any target that takes them. -/
theorem allCode_retarget {schema : Fields} (h : allCode target loc name schema = .ok (code, type))
    (hsome : other.isNothing = false) (hfits : other.compatible type = true) :
    allCode other loc name schema = .ok (code, type) := by
  unfold allCode at h ⊢
  split at h
  next => simp at h
  next =>
    split at h
    next =>
      cases h
      simp [hsome, hfits]
    next => simp at h

/-- What a selection chooses does not depend on the target. -/
theorem selection_retarget {args : List Expr} {chosen : Selection}
    (h : selection target loc args = .ok chosen) (hsome : other.isNothing = false) :
    selection other loc args = .ok chosen := by
  unfold selection at h ⊢
  split at h
  next =>
    split at h
    next => simp at h
    next => simpa [hsome] using h
  next => simp at h

/-- A selection may be wanted for any target that takes what it selects. -/
theorem selectCode_retarget {schema : Fields} {args : List Expr}
    (h : selectCode target loc name schema args = .ok (code, type))
    (hsome : other.isNothing = false) (hfits : other.compatible type = true) :
    selectCode other loc name schema args = .ok (code, type) := by
  unfold selectCode at h ⊢
  obtain ⟨chosen, hchosen, hchecked⟩ := bind_ok_iff.mp h
  refine bind_ok_iff.mpr ⟨chosen, selection_retarget hchosen hsome, ?_⟩
  cases chosen with
  | rows => exact checked_retarget hchecked hfits
  | pointers => exact checked_retarget hchecked hfits

/-- A chain on a store may be wanted for any target that takes its type. An append has no value
and wants an open target. -/
theorem storeCode_retarget {schema : Fields} {dots : List Dot}
    (h : storeCode m scope target loc name schema dots = .ok (code, type))
    (hsome : other.isNothing = false) (hfits : other.compatible type = true)
    (happend : ∀ methodLoc args, dots = [.method methodLoc "append" args] → other.isAny = true) :
    storeCode m scope other loc name schema dots = .ok (code, type) := by
  unfold storeCode at h ⊢
  split at h
  next => exact allCode_retarget h hsome hfits
  next => simp at h
  next methodLoc method args =>
    split at h
    next hmethod =>
      split at h
      next =>
        subst hmethod
        rw [if_pos rfl, if_pos (happend methodLoc args rfl)]
        exact h
      next => simp at h
    next hmethod =>
      rw [if_neg hmethod]
      split at h
      next hlen =>
        rw [if_pos hlen]
        split at h
        next hargs =>
          rw [if_pos hargs]
          exact checked_retarget h hfits
        next => simp at h
      next hlen =>
        rw [if_neg hlen]
        split at h
        next hselect =>
          rw [if_pos hselect]
          exact selectCode_retarget h hsome hfits
        next => simp at h
  next => simp at h

/-- A reference keeps its code under every target that goes with its type. Only an append
to a store wants a target that is open. -/
theorem code_reference_retarget {dots : List Dot}
    (h : (Expr.reference loc name dots).code m scope target = .ok (code, type))
    (hsome : other.isNothing = false) (hfits : other.compatible type = true)
    (happend : isAppend m name dots = true → other.isAny = true) :
    (Expr.reference loc name dots).code m scope other = .ok (code, type) := by
  unfold Expr.code at h ⊢
  split at h
  next =>
    split at h
    next => simp at h
    next =>
      obtain ⟨chain, hchain, hchecked⟩ := bind_ok_iff.mp h
      rw [hsome, if_neg Bool.false_ne_true]
      exact bind_ok_iff.mpr ⟨chain, hchain, checked_retarget hchecked hfits⟩
  next =>
    split at h
    next schema hstore =>
      refine storeCode_retarget h hsome hfits ?_
      rintro methodLoc args rfl
      exact happend (by simp [isAppend, hstore])
    next => simp at h

/-! ## Literals -/

/-- Two parts of code that are put together are accepted one by one. -/
theorem exists_ok_bind_iff {ε α β γ : Type} {first : Except ε α} {second : Except ε β}
    {next : α → β → Except ε γ} (hnext : ∀ value more, ∃ result, next value more = .ok result) :
    (∃ result, (first >>= fun value => second >>= next value) = .ok result) ↔
      (∃ value, first = .ok value) ∧ ∃ more, second = .ok more := by
  constructor
  · rintro ⟨_, h⟩
    obtain ⟨value, hvalue, h⟩ := bind_ok_iff.mp h
    obtain ⟨more, hmore, -⟩ := bind_ok_iff.mp h
    exact ⟨⟨value, hvalue⟩, more, hmore⟩
  · rintro ⟨⟨value, hvalue⟩, more, hmore⟩
    obtain ⟨result, hresult⟩ := hnext value more
    exact ⟨result, bind_ok_iff.mpr ⟨value, hvalue, bind_ok_iff.mpr ⟨more, hmore, hresult⟩⟩⟩

theorem exists_elementsCode_iff {elem : DataType} {exprs : List Expr} :
    (∃ pushes, elementsCode m scope elem exprs = .ok pushes) ↔
      ∀ expr ∈ exprs, ∃ result, expr.code m scope elem = .ok result := by
  induction exprs with
  | nil => simp [elementsCode]
  | cons expr rest ih =>
      rw [List.forall_mem_cons, ← ih, elementsCode]
      exact exists_ok_bind_iff fun _ _ => ⟨_, rfl⟩

theorem exists_fieldsCode_iff {expected : Option Fields} {entries : List (String × Expr)} :
    (∃ sets, fieldsCode m scope expected entries = .ok sets) ↔
      ∀ entry ∈ entries, ∃ result,
        entry.2.code m scope (fieldTarget expected entry.1) = .ok result := by
  induction entries with
  | nil => simp [fieldsCode]
  | cons entry rest ih =>
      rw [List.forall_mem_cons, ← ih, fieldsCode]
      exact exists_ok_bind_iff fun _ _ => ⟨_, rfl⟩

/-- Distinct names that are new and expected pass the check. -/
theorem checkNames_of_nodup {expected : Option Fields} {names seen : List String}
    (hnodup : names.Nodup) (hfresh : ∀ name ∈ names, name ∉ seen)
    (hexpected : ∀ name ∈ names, expectsField expected name = true) :
    checkNames expected loc seen names = .ok () := by
  induction names generalizing seen with
  | nil => rfl
  | cons name rest ih =>
      rw [List.nodup_cons] at hnodup
      rw [List.forall_mem_cons] at hfresh hexpected
      rw [checkNames, if_neg (by simpa using hfresh.1), if_pos hexpected.1]
      refine ih hnodup.2 (fun other hother hmem => ?_) hexpected.2
      rcases List.mem_cons.mp hmem with rfl | hseen
      · exact hnodup.1 hother
      · exact hfresh.2 other hother hseen

theorem checkMissing_of_subset {expected : Option Fields} {names : List String}
    (h : ∀ name ∈ (expected.getD []).map Prod.fst, name ∈ names) :
    checkMissing expected loc names = .ok () := by
  have hnone : ((expected.getD []).map Prod.fst).find? (fun name => !names.contains name) =
      none := by
    rw [List.find?_eq_none]
    intro name hname
    simpa using h name hname
  rw [checkMissing, hnone]

/-- An object literal has code if its fields have, and its names are those expected. -/
theorem code_object_eq_ok {expected : Option Fields} {entries : List (String × Expr)}
    {types : Fields} (htarget : objectFields target loc = .ok expected)
    (hnodup : (entries.map Prod.fst).Nodup)
    (hexpected : ∀ name ∈ entries.map Prod.fst, expectsField expected name = true)
    (hcomplete : ∀ name ∈ (expected.getD []).map Prod.fst, name ∈ entries.map Prod.fst)
    (hfields : fieldsCode m scope expected entries = .ok (code, types)) :
    (Expr.object loc entries).code m scope target =
      .ok (.newObject :: code, objectType expected types) := by
  rw [Expr.code]
  refine bind_ok_iff.mpr ⟨expected, htarget, bind_ok_iff.mpr ⟨(), ?_, bind_ok_iff.mpr ⟨(), ?_,
    bind_ok_iff.mpr ⟨(code, types), hfields, rfl⟩⟩⟩⟩
  · exact checkNames_of_nodup hnodup (by simp) hexpected
  · exact checkMissing_of_subset hcomplete

/-- What is known of an object literal that has code. -/
theorem exists_of_code_object {entries : List (String × Expr)}
    (h : (Expr.object loc entries).code m scope target = .ok (code, type)) :
    ∃ expected sets types, objectFields target loc = .ok expected ∧
      (entries.map Prod.fst).Nodup ∧
      (∀ name ∈ entries.map Prod.fst, expectsField expected name = true) ∧
      (∀ name ∈ (expected.getD []).map Prod.fst, name ∈ entries.map Prod.fst) ∧
      fieldsCode m scope expected entries = .ok (sets, types) ∧
      code = .newObject :: sets ∧ type = objectType expected types := by
  rw [Expr.code] at h
  obtain ⟨expected, htarget, h⟩ := bind_ok_iff.mp h
  obtain ⟨_, hnames, h⟩ := bind_ok_iff.mp h
  obtain ⟨_, hmissing, h⟩ := bind_ok_iff.mp h
  obtain ⟨⟨sets, types⟩, hsets, h⟩ := bind_ok_iff.mp h
  cases h
  obtain ⟨hnodup, -, hexpected⟩ := checkNames_eq_ok hnames
  exact ⟨expected, sets, types, htarget, hnodup, hexpected, checkMissing_eq_ok hmissing, hsets,
    rfl, rfl⟩

theorem stringCode_of_fits {value : String} (hfits : target.compatible .string = true) :
    stringCode target loc value = .ok ([.text value], .string) := by
  cases target with
  | any => rfl
  | prim p =>
      obtain rfl : p = .string := by simpa [DataType.compatible] using hfits
      rfl
  | _ => cases hfits

/-- A number has code if it can be read as one that goes with the target. -/
theorem exists_numberCode {text : String}
    (h : target.compatible .int = true ∧ (∃ value, readInt64? text = some value) ∨
      target.compatible .double = true ∧
        ∃ value, Double.read? text = some value ∧ value.isFinite = true) :
    ∃ result, numberCode target loc text = .ok result := by
  have hint : ∀ value, readInt64? text = some value →
      intCode loc text = .ok ([.int value], .int) :=
    fun value hvalue => intCode_eq_ok_iff.mpr ⟨value, hvalue, rfl⟩
  have hdouble : ∀ value, Double.read? text = some value → value.isFinite = true →
      doubleCode loc text = .ok ([.double value], .double) :=
    fun value hvalue hfinite => doubleCode_eq_ok_iff.mpr ⟨value, hvalue, hfinite, rfl⟩
  rcases h with ⟨hfits, value, hvalue⟩ | ⟨hfits, value, hvalue, hfinite⟩
  · cases target with
    | any => exact ⟨_, (if_pos (by simp [hvalue])).trans (hint value hvalue)⟩
    | prim p =>
        obtain rfl : p = .int := by simpa [DataType.compatible] using hfits
        exact ⟨_, hint value hvalue⟩
    | _ => cases hfits
  · cases target with
    | any =>
        cases hread : readInt64? text with
        | none => exact ⟨_, (if_neg (by simp [hread])).trans (hdouble value hvalue hfinite)⟩
        | some whole => exact ⟨_, (if_pos (by simp [hread])).trans (hint whole hread)⟩
    | prim p =>
        obtain rfl : p = .double := by simpa [DataType.compatible] using hfits
        exact ⟨_, hdouble value hvalue hfinite⟩
    | _ => cases hfits

/-! ## Looser targets -/

/-- A looser target wants looser elements. -/
theorem exists_elementType_of_loosens {elem : DataType} (h : Loosens target other)
    (hdistinct : target.isDistinct = true) (hdistinct' : other.isDistinct = true)
    (helem : elementType target loc = .ok elem) :
    ∃ looser, elementType other loc = .ok looser ∧ Loosens elem looser ∧
      elem.isDistinct = true ∧ looser.isDistinct = true := by
  unfold elementType at helem
  split at helem
  next =>
    cases helem
    cases h with
    | opened => exact ⟨.any, rfl, .opened rfl, hdistinct, rfl⟩
    | array helem => exact ⟨_, rfl, helem, hdistinct, hdistinct'⟩
  next =>
    cases helem
    cases h with
    | opened | any => exact ⟨.any, rfl, .any, rfl, rfl⟩
  next => simp at helem

/-- With the target of an object literal those of its fields are loosened, and no name is
added to those expected. -/
theorem exists_objectFields_of_loosens {expected : Option Fields} (h : Loosens target other)
    (hdistinct : target.isDistinct = true) (hdistinct' : other.isDistinct = true)
    (htarget : objectFields target loc = .ok expected) :
    ∃ looser, objectFields other loc = .ok looser ∧
      (∀ name ∈ (looser.getD []).map Prod.fst, name ∈ (expected.getD []).map Prod.fst) ∧
      ∀ name, expectsField expected name = true → expectsField looser name = true ∧
        Loosens (fieldTarget expected name) (fieldTarget looser name) ∧
        (fieldTarget expected name).isDistinct = true ∧
        (fieldTarget looser name).isDistinct = true := by
  unfold objectFields at htarget
  split at htarget
  next fields =>
    cases htarget
    cases h with
    | opened =>
        refine ⟨none, rfl, by simp, fun name hname => ⟨rfl, .opened rfl, ?_, rfl⟩⟩
        obtain ⟨type, htype⟩ := Option.isSome_iff_exists.mp hname
        simpa [fieldTarget, htype] using DataType.isDistinct_of_field? hdistinct htype
    | @object _ others hnames htypes =>
        refine ⟨some others, rfl, fun name hname => ?_, fun name hname => ?_⟩
        · rw [Option.getD_some, ← DataType.field?_isSome_iff, hnames,
            DataType.field?_isSome_iff]
          exact hname
        · obtain ⟨type, looser, htype, hlooser, hloosens⟩ :=
            Loosens.field (.object hnames htypes) hname
          simp only [expectsField, fieldTarget, htype, hlooser, Option.isSome_some,
            Option.getD_some, true_and]
          exact ⟨hloosens, DataType.isDistinct_of_field? hdistinct htype,
            DataType.isDistinct_of_field? hdistinct' hlooser⟩
  next =>
    cases htarget
    cases h with
    | opened | any => exact ⟨none, rfl, by simp, fun _ _ => ⟨rfl, .any, rfl, rfl⟩⟩
  next => simp at htarget

/-- An expression that is accepted for a target is accepted for every target that leaves
more open. The fields of object types form maps. -/
theorem accepted_of_loosens {expr : Expr} (h : Loosens target other)
    (hdistinct : target.isDistinct = true) (hdistinct' : other.isDistinct = true)
    (hcode : ∃ result, expr.code m scope target = .ok result) :
    ∃ result, expr.code m scope other = .ok result := by
  induction expr using literalInduction generalizing target other with
  | reference loc name dots =>
      obtain ⟨⟨code, type⟩, hcode⟩ := hcode
      have helaborates := elaborates_of_code hcode
      refine ⟨_, code_reference_retarget hcode ?_ ?_ fun happend => ?_⟩
      · cases h with
        | nothing => exact helaborates.isNothing_eq_false
        | _ => rfl
      · exact h.compatible hdistinct hdistinct' (helaborates.compatible hdistinct)
      -- Only an open target lets an append through, and what is open stays open.
      · cases helaborates with
        | append =>
            cases h with
            | opened | any => rfl
        | ofVariable _ _ hchain => simp [hchain.isAppend_eq_false] at happend
        | all | count | rows | pointers => simp [isAppend] at happend
  | string loc value =>
      obtain ⟨⟨code, type⟩, hcode⟩ := hcode
      cases elaborates_of_code hcode with
      | text hfits =>
          rw [Expr.code]
          exact ⟨_, stringCode_of_fits (h.compatible hdistinct hdistinct' hfits)⟩
  | number loc text =>
      obtain ⟨⟨code, type⟩, hcode⟩ := hcode
      rw [Expr.code]
      -- An opened target may read another kind of number, but it reads one.
      apply exists_numberCode
      cases elaborates_of_code hcode with
      | int hfits hread => exact .inl ⟨h.compatible hdistinct hdistinct' hfits, _, hread⟩
      | double hfits hread hfinite =>
          exact .inr ⟨h.compatible hdistinct hdistinct' hfits, _, hread, hfinite⟩
  | array loc elements ih =>
      obtain ⟨result, hcode⟩ := hcode
      rw [Expr.code] at hcode ⊢
      obtain ⟨elem, helem, hcode⟩ := bind_ok_iff.mp hcode
      obtain ⟨pushes, hpushes, -⟩ := bind_ok_iff.mp hcode
      obtain ⟨looser, hlooser, hloosens, hleft, hright⟩ :=
        exists_elementType_of_loosens h hdistinct hdistinct' helem
      obtain ⟨pushes, hpushes⟩ := exists_elementsCode_iff.mpr fun element helement =>
        ih element helement hloosens hleft hright
          (exists_elementsCode_iff.mp ⟨pushes, hpushes⟩ element helement)
      exact ⟨_, bind_ok_iff.mpr ⟨looser, hlooser, bind_ok_iff.mpr ⟨pushes, hpushes, rfl⟩⟩⟩
  | object loc entries ih =>
      obtain ⟨⟨code, type⟩, hcode⟩ := hcode
      obtain ⟨expected, sets, types, htarget, hnodup, hexpected, hcomplete, hsets, -, -⟩ :=
        exists_of_code_object hcode
      obtain ⟨looser, hlooser, hnames, hloosens⟩ :=
        exists_objectFields_of_loosens h hdistinct hdistinct' htarget
      obtain ⟨⟨sets, types⟩, hsets⟩ : ∃ sets, fieldsCode m scope looser entries = .ok sets := by
        refine exists_fieldsCode_iff.mpr fun entry hentry => ?_
        obtain ⟨-, hfield, hleft, hright⟩ :=
          hloosens entry.1 (hexpected entry.1 (List.mem_map_of_mem hentry))
        exact ih entry hentry hfield hleft hright
          (exists_fieldsCode_iff.mp ⟨_, hsets⟩ entry hentry)
      exact ⟨_, code_object_eq_ok hlooser hnodup
        (fun name hname => (hloosens name (hexpected name hname)).1)
        (fun name hname => hcomplete name (hnames name hname)) hsets⟩
  | lambda loc row body =>
      obtain ⟨result, hcode⟩ := hcode
      simp [Expr.code] at hcode

/-- A user with a score. -/
def ofScoredUser : Expr :=
  .object {} [("name", .string {} "bob"), ("friends", .array {} [.string {} "alice"]),
    ("score", .number {} "1")]

/-- The record of a user with a score. -/
def scoredUserFields : Fields :=
  [("friends", .array .string), ("name", .string), ("score", .double)]

/-- A record whose score may be anything, and so may be the friends. -/
def looseScoreFields : Fields := [("friends", .array .any), ("name", .string), ("score", .any)]

/-- Two of the three fields are opened. -/
theorem loosens_looseScoreFields :
    Loosens (.object scoredUserFields) (.object looseScoreFields) := by
  refine .object (fun name => ?_) fun name type other htype hother => ?_
  · rw [Bool.eq_iff_iff, DataType.field?_isSome_iff, DataType.field?_isSome_iff]
    rfl
  · simp only [DataType.field?, scoredUserFields, looseScoreFields, List.lookup_cons,
      List.lookup_nil] at htype hother
    revert htype hother
    cases name == "friends" <;> cases name == "name" <;> cases name == "score" <;>
      rintro ⟨⟩ ⟨⟩
    · exact .opened rfl
    · exact .prim
    · exact .prim
    all_goals exact .array (.opened rfl)

/-- The record is accepted for both types. -/
theorem accepted_of_loosens_ofScoredUser :
    Loosens (.object scoredUserFields) (.object looseScoreFields) ∧
      (∃ result, ofScoredUser.code {} {} (.object scoredUserFields) = .ok result) ∧
      ∃ result, ofScoredUser.code {} {} (.object looseScoreFields) = .ok result := by
  have hops : (ofScoredUser.code {} {} (.object scoredUserFields)).toOption.map Prod.fst =
      some [.newObject, .text "name", .text "bob", .setField 1, .text "friends", .newArray,
        .text "alice", .arrayPush, .setField 1, .text "score", .double (.ofDecimal false 1 0),
        .setField 1] := by
    decide +kernel
  have hcode : ∃ result, ofScoredUser.code {} {} (.object scoredUserFields) = .ok result := by
    cases hresult : ofScoredUser.code {} {} (.object scoredUserFields) with
    | error fault =>
        rw [hresult] at hops
        cases hops
    | ok result => exact ⟨result, rfl⟩
  exact ⟨loosens_looseScoreFields, hcode,
    accepted_of_loosens loosens_looseScoreFields (by decide) (by decide) hcode⟩

end Expr

end StoredProc
