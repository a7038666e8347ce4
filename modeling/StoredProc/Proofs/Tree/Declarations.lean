import StoredProc.Proofs.Compile.ExpressionCode
import StoredProc.Proofs.Json.LastMember
import StoredProc.Tree.Declaration

/-! # What a function is read from

A function document that is accepted has a plain header, a parameter with a name if it
has one, a result type if it has one, and a body of statements.
-/

namespace StoredProc

theorem map_ok_iff {ε α β : Type} {change : α → β} {result : Except ε α} {value : β} :
    result.map change = .ok value ↔ ∃ found, result = .ok found ∧ change found = value := by
  cases result <;> simp [Except.map]

namespace Function

/-- Read one member of a parameter. -/
def ParameterDocument.readMember (document : ParameterDocument) (member : String × Json) :
    Option ParameterDocument :=
  if Json.named "name" member.1 then
    match member.2 with
    | .null => some document
    | value => value.string?.map fun name => { document with name }
  else if Json.named "type" member.1 then some { document with type := some member.2 }
  else some document

/-- The members of a parameter are read one after the other, if all names can be read. -/
theorem readParameter_obj (start : Option ParameterDocument) (source : String)
    (members : List (String × Json)) : readParameter start (.obj source members) =
      if Json.soundNames members
        then (members.foldlM ParameterDocument.readMember (start.getD {})).map some else none := by
  rw [readParameter]
  cases Json.soundNames members with
  | false => rfl
  | true =>
      rw [if_pos rfl, Option.map_eq_bind]
      rfl

/-- What a function document says of the parameter. -/
def parameterOf (members : List (String × Json)) : Option (Option ParameterDocument) :=
  members.foldlM (fun found member =>
    if Json.named "parameter" member.1 then readParameter found member.2 else some found) none

/-- A header is read if all names are sound and every body is a list or `null`. -/
theorem readHeader_eq (members : List (String × Json)) : readHeader members = (do
    guard (Json.soundNames members)
    guard (Json.allNamed "body" Json.isListOrNull members)
    let name ← Json.textMember? "name" members
    let parameter ← parameterOf members
    let loc ← Location.ofMembers members
    return { name, parameter, loc }) :=
  rfl

variable {members : List (String × Json)}

theorem of_readHeader {header : Header} (h : readHeader members = some header) :
    Json.textMember? "name" members = some header.name ∧
      parameterOf members = some header.parameter ∧
      Location.ofMembers members = some header.loc := by
  rw [readHeader_eq] at h
  simp only [Option.bind_eq_bind, Option.bind_eq_some_iff] at h
  obtain ⟨-, -, -, -, name, hname, parameter, hparameter, loc, hloc, heq⟩ := h
  obtain rfl := Option.some.inj heq
  exact ⟨hname, hparameter, hloc⟩

/-- The parameter that a document describes. -/
inductive Declares : Option ParameterDocument → Option Parameter → Prop
  | none : Declares none none
  | some {document : ParameterDocument} {type : Option DataType}
      (hname : document.name.isEmpty = false) (htype : optionalType document.type = .ok type) :
      Declares (some document) (some { name := document.name, type := type.getD .any })

/-- The parts of a function that is accepted. -/
theorem exists_header_of_ofMembers {f : Function} (h : ofMembers members = .ok f) :
    ∃ document, readHeader members = some ⟨f.name, document, f.loc⟩ ∧
      Declares document f.parameter ∧
      optionalType (Json.last? "returnType" members) = .ok f.result ∧
      orEmpty (lastBody? members) = .ok f.body := by
  unfold ofMembers at h
  split at h
  next => cases h
  next header hheader =>
    extract_lets finish at h
    -- Whatever the parameter is, the rest of the document gives the other parts.
    have hfinish : ∀ parameter, finish parameter = .ok f →
        f.parameter = parameter ∧ f.name = header.name ∧ f.loc = header.loc ∧
          optionalType (Json.last? "returnType" members) = .ok f.result ∧
          orEmpty (lastBody? members) = .ok f.body := by
      intro parameter hdone
      obtain ⟨result, hresult, hdone⟩ := bind_ok_iff.mp hdone
      obtain ⟨body, hbody, hdone⟩ := bind_ok_iff.mp hdone
      cases hdone
      exact ⟨rfl, rfl, rfl, mapError_ok_iff.mp hresult, mapError_ok_iff.mp hbody⟩
    have hdeclared : ∃ parameter, finish parameter = .ok f ∧
        Declares header.parameter parameter := by
      split at h
      next hnone => exact ⟨none, h, hnone ▸ .none⟩
      next document hsome =>
        split at h
        next => cases h
        next hname =>
          split at h
          next => cases h
          next type htype => exact ⟨_, h, hsome ▸ .some (Bool.eq_false_iff.mpr hname) htype⟩
    obtain ⟨parameter, hdone, hdeclares⟩ := hdeclared
    obtain ⟨hparameter, hname, hloc, hresult, hbody⟩ := hfinish parameter hdone
    exact ⟨header.parameter, by rw [hname, hloc, hheader], hparameter ▸ hdeclares, hresult, hbody⟩

/-- The name of a parameter is a text member like any other. -/
theorem ParameterDocument.passOver_name {start stop : ParameterDocument}
    (h : members.foldlM readMember start = some stop) :
    Json.passOver "name" Json.takeText start.name members = some stop.name := by
  induction members generalizing start with
  | nil =>
      cases h
      rfl
  | cons member rest ih =>
      rw [List.foldlM_cons, Option.bind_eq_bind, Option.bind_eq_some_iff] at h
      obtain ⟨next, hnext, h⟩ := h
      have hname : (if Json.named "name" member.1 then Json.takeText start.name member.2
          else some start.name) = some next.name := by
        rw [readMember] at hnext
        split at hnext
        next hnamed =>
          rw [if_pos hnamed]
          split at hnext
          next hnull =>
            cases hnext
            rw [hnull]
            rfl
          next hvalue =>
            obtain ⟨text, htext, rfl⟩ := Option.map_eq_some_iff.mp hnext
            rw [← htext]
            generalize member.2 = value at hvalue ⊢
            cases value with
            | null => exact absurd rfl hvalue
            | bool | num | str | arr | obj => rfl
        next hnamed =>
          rw [if_neg hnamed]
          split at hnext <;> cases hnext <;> rfl
      rw [Json.passOver, List.foldlM_cons, hname]
      exact ih h

end Function

end StoredProc
