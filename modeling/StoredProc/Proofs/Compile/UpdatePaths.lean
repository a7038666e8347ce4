import StoredProc.Proofs.Compile.RowFunctions

/-! # The paths of updates

An update names the array it pushes to by the names of the fields that lead there, joined
with dots. A name with dots in it counts as several, so a path tells lists of fields apart
only up to the dots in their names.
-/

namespace StoredProc

/-! ## Segments -/

/-- The pieces that the dots in a name divide it into. -/
def segments (name : String) : List (List Char) := name.toList.splitOn '.'

/-- A name without dots is its only piece. -/
theorem segments_eq_singleton {name : String} (h : '.' ∉ name.toList) :
    segments name = [name.toList] :=
  List.splitOn_eq_singleton h

/-- The pieces of the names can be read off their path. -/
theorem splitOn_dotted {path : List String} (h : path ≠ []) :
    (".".intercalate path).toList.splitOn '.' = path.flatMap segments := by
  induction path with
  | nil => exact absurd rfl h
  | cons name rest ih =>
      by_cases hrest : rest = []
      · subst hrest
        simp [segments]
      · have hdotted : (".".intercalate (name :: rest)).toList =
            name.toList ++ '.' :: (".".intercalate rest).toList := by
          rw [String.intercalate_cons_of_ne_nil hrest]
          simp
        rw [hdotted, List.splitOn_append_cons_self, ih hrest, List.flatMap_cons, segments]

/-- Two paths are the same exactly if the pieces of their names are. -/
theorem dotted_eq_iff {first second : List String} (hfirst : first ≠ []) (hsecond : second ≠ []) :
    ".".intercalate first = ".".intercalate second ↔
      first.flatMap segments = second.flatMap segments := by
  rw [← splitOn_dotted hfirst, ← splitOn_dotted hsecond]
  constructor
  · intro h
    rw [h]
  · intro h
    have hjoin := congrArg ['.'].intercalate h
    rwa [List.intercalate_splitOn, List.intercalate_splitOn, String.toList_inj] at hjoin

theorem flatMap_segments_of_forall {path : List String} (h : ∀ name ∈ path, '.' ∉ name.toList) :
    path.flatMap segments = path.map String.toList := by
  induction path with
  | nil => rfl
  | cons name rest ih =>
      obtain ⟨hname, hrest⟩ := List.forall_mem_cons.mp h
      rw [List.flatMap_cons, segments_eq_singleton hname, ih hrest, List.singleton_append,
        List.map_cons]

/-- Names without dots are told apart by their paths. -/
theorem dotted_eq_iff_of_forall {first second : List String} (hfirst : first ≠ [])
    (hsecond : second ≠ []) (hdots : ∀ name ∈ first ++ second, '.' ∉ name.toList) :
    ".".intercalate first = ".".intercalate second ↔ first = second := by
  obtain ⟨hdots₁, hdots₂⟩ := List.forall_mem_append.mp hdots
  rw [dotted_eq_iff hfirst hsecond, flatMap_segments_of_forall hdots₁,
    flatMap_segments_of_forall hdots₂]
  exact List.map_inj_right fun _ _ => String.toList_inj.mp

/-! ## Changes of a record -/

/-- The field that a link of a chain accesses. -/
def Dot.field? : Dot → Option String
  | .field _ name => some name
  | .method .. => none

/-- The fields that the first statement of a function accesses, one after the other. -/
def Expr.accessed : Expr → List String
  | .lambda _ _ (.reference _ _ dots :: _) => dots.filterMap Dot.field?
  | _ => []

theorem RowChange.accessed_expr (change : RowChange) : change.expr.accessed = change.path := by
  have haccess : Dot.field? ∘ Dot.access = some ∘ Prod.snd := rfl
  rw [expr, Expr.accessed, dots, List.filterMap_append, List.filterMap_map, haccess,
    List.filterMap_eq_map, path]
  exact List.append_nil _

theorem RowChange.path_ne_nil (change : RowChange) : change.path ≠ [] := by
  simpa [path] using change.accesses_ne_nil

/-- Two changes of the records of a store push at the same path exactly if the names of the
fields that they access fall into the same pieces. If none of the names has a dot in it the
path tells the fields, and so the array that is appended to. -/
theorem Expr.pushPath_eq_iff {m : Manifest} {store : String} {schema : Fields}
    (hstore : m.store? store = some schema) {scope₁ scope₂ : Scope} {loc₁ loc₂ : Location}
    {arg₁ arg₂ : Expr} {code₁ code₂ : Code} {type₁ type₂ : DataType}
    (h₁ : dotCode m scope₁ (.ref store) (.method loc₁ "deref" [arg₁]) = .ok (code₁, type₁))
    (h₂ : dotCode m scope₂ (.ref store) (.method loc₂ "deref" [arg₂]) = .ok (code₂, type₂)) :
    ∃ (value₁ value₂ : List Op) (path₁ path₂ : String),
      code₁.map Instruction.toOp = .createUpdateDoc (.map [("$push", .map [])]) :: value₁ ++
        [.setNestedField "$push" path₁, .updateOne store] ∧
      code₂.map Instruction.toOp = .createUpdateDoc (.map [("$push", .map [])]) :: value₂ ++
        [.setNestedField "$push" path₂, .updateOne store] ∧
      (path₁ = path₂ ↔ arg₁.accessed.flatMap segments = arg₂.accessed.flatMap segments) ∧
      ((∀ name ∈ arg₁.accessed ++ arg₂.accessed, '.' ∉ name.toList) →
        (path₁ = path₂ ↔ arg₁.accessed = arg₂.accessed)) := by
  obtain ⟨-, change₁, rfl, -, value₁, -, -, -, rfl⟩ := (derefCode_eq_ok_iff hstore).mp h₁
  obtain ⟨-, change₂, rfl, -, value₂, -, -, -, rfl⟩ := (derefCode_eq_ok_iff hstore).mp h₂
  rw [change₁.accessed_expr, change₂.accessed_expr]
  exact ⟨_, _, _, _, ops_push .., ops_push ..,
    dotted_eq_iff change₁.path_ne_nil change₂.path_ne_nil,
    dotted_eq_iff_of_forall change₁.path_ne_nil change₂.path_ne_nil⟩

/-! ## Notes with tags -/

/-- The fields of a note. The name of one field is the path to another one. -/
def Fields.ofNote : Fields :=
  [("links", .array .string), ("tags", .object [("work", .array .string)]),
    ("tags.work", .array .string)]

/-- A manifest with a store of notes. -/
def Manifest.ofNotes : Manifest where
  entities := [.store "notes" Fields.ofNote]

/-- A text is appended to an array of a note. -/
def RowChange.ofNote (path : List String) (h : path ≠ []) : RowChange where
  row := "row"
  accesses := path.map fun name => ({}, name)
  value := .string {} "urgent"
  accesses_ne_nil := by simpa using h

theorem RowChange.path_ofNote (path : List String) (h : path ≠ []) :
    (RowChange.ofNote path h).path = path := by
  simp [RowChange.path, RowChange.ofNote, Function.comp_def]

/-- A text can be appended to every array of texts. -/
theorem RowChange.code_ofNote (path : List String) (h : path ≠ [])
    (hat : (DataType.object Fields.ofNote).fieldAt? path = some (.array .string)) :
    Expr.dotCode .ofNotes {} (.ref "notes") (.method {} "deref" [(RowChange.ofNote path h).expr]) =
      .ok ([.newPush, .text "urgent", .pushAt path, .updateOne "notes"],
        .optional (.object Fields.ofNote)) := by
  apply (Expr.derefCode_eq_ok_iff rfl).mpr
  refine ⟨rfl, .ofNote path h, rfl, .string, [.text "urgent"], .string, ?_, ?_, ?_⟩
  · rwa [path_ofNote]
  · simp [RowChange.ofNote, Expr.code, Expr.stringCode]
  · rw [path_ofNote]
    rfl

/-- The links of a note and its tags for work are told apart. -/
theorem Expr.pushPath_eq_iff_ofNotes :
    Manifest.ofNotes.store? "notes" = some .ofNote ∧
      ∃ (code₁ code₂ : Code) (value₁ value₂ : List Op) (path₁ path₂ : String),
        dotCode .ofNotes {} (.ref "notes")
          (.method {} "deref" [(RowChange.ofNote ["links"] (by simp)).expr]) =
            .ok (code₁, .optional (.object Fields.ofNote)) ∧
        dotCode .ofNotes {} (.ref "notes")
          (.method {} "deref" [(RowChange.ofNote ["tags", "work"] (by simp)).expr]) =
            .ok (code₂, .optional (.object Fields.ofNote)) ∧
        code₁.map Instruction.toOp = .createUpdateDoc (.map [("$push", .map [])]) :: value₁ ++
          [.setNestedField "$push" path₁, .updateOne "notes"] ∧
        code₂.map Instruction.toOp = .createUpdateDoc (.map [("$push", .map [])]) :: value₂ ++
          [.setNestedField "$push" path₂, .updateOne "notes"] ∧
        path₁ ≠ path₂ := by
  have hstore : Manifest.ofNotes.store? "notes" = some .ofNote := rfl
  have hlinks := RowChange.code_ofNote ["links"] (by simp) rfl
  have htags := RowChange.code_ofNote ["tags", "work"] (by simp) rfl
  obtain ⟨value₁, value₂, path₁, path₂, hops₁, hops₂, -, hpath⟩ :=
    pushPath_eq_iff hstore hlinks htags
  refine ⟨hstore, _, _, value₁, value₂, path₁, path₂, hlinks, htags, hops₁, hops₂, ?_⟩
  rw [RowChange.accessed_expr, RowChange.accessed_expr, RowChange.path_ofNote,
    RowChange.path_ofNote] at hpath
  intro heq
  simpa using (hpath (by simp)).mp heq

/-- The field that has the path of another one as its name is not told apart from it: the
operations are the same. -/
theorem Expr.not_pushPath_injective_ofNotes :
    (RowChange.ofNote ["tags", "work"] (by simp)).expr.accessed ≠
        (RowChange.ofNote ["tags.work"] (by simp)).expr.accessed ∧
      ∃ code₁ code₂ : Code,
        dotCode .ofNotes {} (.ref "notes")
          (.method {} "deref" [(RowChange.ofNote ["tags", "work"] (by simp)).expr]) =
            .ok (code₁, .optional (.object Fields.ofNote)) ∧
        dotCode .ofNotes {} (.ref "notes")
          (.method {} "deref" [(RowChange.ofNote ["tags.work"] (by simp)).expr]) =
            .ok (code₂, .optional (.object Fields.ofNote)) ∧
        code₁.map Instruction.toOp = code₂.map Instruction.toOp := by
  refine ⟨?_, _, _, RowChange.code_ofNote _ (by simp) rfl, RowChange.code_ofNote _ (by simp) rfl,
    rfl⟩
  rw [RowChange.accessed_expr, RowChange.accessed_expr, RowChange.path_ofNote,
    RowChange.path_ofNote]
  simp

end StoredProc
