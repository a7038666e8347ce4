import StoredProc.Proofs.Compile.SourceMap
import StoredProc.Proofs.Tree.NumberTexts

/-! # The number literals of accepted functions

Every number literal of a function that compiles is read, wherever it stands. So none of
them has the text of a list or an object.
-/

namespace StoredProc

/-! ## Texts that are no numbers -/

theorem readInt64?_of_isBracketed {text : String} (h : isBracketed text = true) :
    readInt64? text = none := by
  obtain ⟨c, rest, hcs, rfl | rfl⟩ := exists_cons_of_isBracketed h <;>
    simp [readInt64?, hcs, takeSign]

/-- What stands in brackets is no number. -/
theorem Double.read?_of_isBracketed {text : String} (h : isBracketed text = true) :
    Double.read? text = none := by
  obtain ⟨c, rest, hcs, hc⟩ := exists_cons_of_isBracketed h
  have hname : ∀ name : String, name.toList.head? ≠ some c.toLower →
      String.ofList ((c :: rest).map Char.toLower) ≠ name := by
    rintro name hhead rfl
    rw [String.toList_ofList] at hhead
    exact hhead rfl
  rcases hc with rfl | rfl
  all_goals
    have hinf := hname "inf" (by decide)
    have hinfinity := hname "infinity" (by decide)
    have hnan := hname "nan" (by decide)
    have hspecial : special? text.toList = none := by
      rw [hcs, special?]
      simp only [hinf, hinfinity, hnan, decide_false, Bool.or_self, Bool.false_eq_true, if_false]
      all_goals simp
    rw [read?, hspecial, hcs]
    rfl

/-! ## Accepted code -/

@[simp]
def Part.numbers : Part → List String
  | .value _ expr _ => expr.numbers
  | .elements _ exprs | .records _ _ exprs => Expr.numbersAll exprs
  | .fields _ entries _ => Expr.numbersFields entries
  | .chain _ dots _ | .change _ dots _ => Dot.numbersAll dots

variable {m : Manifest} {target : DataType} {scope : Scope}

/-- No number of an expression that compiles stands in brackets. -/
theorem Elaborates.not_isBracketed {part : Part} {code : Code} (h : Elaborates m scope part code) :
    ∀ text ∈ part.numbers, isBracketed text = false := by
  induction h with
  | int _ hread =>
      rw [Part.numbers, Expr.numbers, List.forall_mem_singleton, Bool.eq_false_iff]
      intro hbracketed
      rw [readInt64?_of_isBracketed hbracketed] at hread
      cases hread
  | double _ hread =>
      rw [Part.numbers, Expr.numbers, List.forall_mem_singleton, Bool.eq_false_iff]
      intro hbracketed
      rw [Double.read?_of_isBracketed hbracketed] at hread
      cases hread
  | ofVariable _ _ _ _ ih | array _ ih | openArray _ ih | object _ _ _ _ ih
  | openObject _ _ ih => exact ih
  | append _ _ _ ih | access _ _ ih | delete _ _ ih | find _ _ ih | length _ ih | push _ ih
  | descend _ _ ih => simpa using ih
  | element _ _ ihvalue ihrest | field _ _ ihvalue ihrest | record _ _ ihvalue ihrest
  | update _ _ _ _ ihvalue ihrest => simpa [or_imp, forall_and] using And.intro ihvalue ihrest
  | all | count | rows | pointers | text | noElements | noFields | noRecords | stop => simp

/-- No number of a statement that compiles stands in brackets. -/
theorem Plain.not_isBracketed {statement : Statement} {code : Code} {after : Scope}
    (h : Plain m target scope statement code after) :
    ∀ text ∈ statement.numbers, isBracketed text = false := by
  cases h with
  | effect hcode | create hcode | valueReturn _ hcode =>
      exact (Expr.elaborates_of_code hcode).not_isBracketed
  | bareReturn => simp

/-- No number of a block that compiles stands in brackets. -/
theorem Lowering.not_isBracketed {statements : List Statement} {steps : List Step} {final : Scope}
    (h : Lowering m target scope statements steps final) :
    ∀ text ∈ Statement.numbersAll statements, isBracketed text = false := by
  induction h with
  | done => simp
  | plain _ hplain _ _ ih => exact List.forall_mem_append.mpr ⟨hplain.not_isBracketed, ih⟩
  | branch _ htest _ _ _ ihbody ihrest =>
      have hcondition := (Expr.elaborates_of_code htest).not_isBracketed
      exact List.forall_mem_append.mpr
        ⟨List.forall_mem_append.mpr ⟨hcondition, ihbody⟩, ihrest⟩

/-- The number texts of a function that compiles are no lists or objects. -/
theorem Function.not_isBracketed_of_compile {r : Registry} {f : Function} {p : Procedure}
    (h : f.compile m r = .ok p) :
    ∀ text ∈ Statement.numbersAll f.body, isBracketed text = false := by
  obtain ⟨_, _, _, haccepted⟩ := exists_accepted h
  exact (Statement.lowering_of_compileAll haccepted.body_compile).not_isBracketed

end StoredProc
