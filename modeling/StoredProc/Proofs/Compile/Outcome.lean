import StoredProc.Proofs.Compile.FaultPlaces
import StoredProc.Proofs.Compile.JumpSkeleton
import StoredProc.Proofs.Machine.Verified
import StoredProc.Proofs.Manifest.Registry

/-! # Outcomes of a compilation

A function becomes a procedure that passes verification, or it has a fault with a
place in its own tree. The check behind the compilation never fails: a jump goes to
the last instruction of its branch, and that is there.
-/

namespace StoredProc.Function

variable {m : Manifest} {r : Registry} {f : Function} {p : Procedure} {prologue : Code}
  {scope : Scope} {block : Block}

/-- A branch jumps to its own end, which is an instruction of the procedure. -/
theorem Accepted.jump_lt (h : f.Accepted m r p prologue scope block) {goal : Nat}
    (hgoal : .jumpIf goal ∈ p.code) : goal < p.code.length := by
  obtain ⟨address, haddress⟩ := List.mem_iff_getElem?.mp hgoal
  obtain ⟨s, hs, hemits⟩ := h.emits_of_getElem? haddress (by simp)
  obtain ⟨hbranch, rfl⟩ := hemits.of_jumpIf
  obtain ⟨_, _, _, hparts⟩ := h.branch_of_isBranch hs hbranch
  obtain rfl : s.finish = goal := by simpa [hparts.jump] using haddress
  exact (List.getElem?_eq_some_iff.mp hparts.cleanup).1

theorem Accepted.verify (h : f.Accepted m r p prologue scope block) : Op.verify p.ops = .ok () :=
  Code.verify_of_jumps fun _ hgoal => h.jump_lt hgoal

/-- Once the body is compiled, only a missing return can go wrong. -/
theorem finish_cases (hentry : entry r f = .ok (prologue, scope))
    (hbody : Statement.compileAll m f.target scope none f.body = .ok block) :
    f.finish prologue block = .error (.located ⟨f.loc, .missingReturn⟩) ∨
      ∃ p, f.finish prologue block = .ok p ∧ Op.verify p.ops = .ok () := by
  unfold finish
  split
  · exact Or.inl rfl
  · -- The procedure is known to be in order before it is verified.
    have hverify : Op.verify (Procedure.ops ⟨f.name,
        prologue ++ Step.assembleAll prologue.length block.steps, block.scope.highest,
        block.scope.count⟩) = .ok () := Accepted.verify ⟨hentry, hbody, rfl⟩
    exact Or.inr ⟨_, by simp only [hverify], hverify⟩

theorem exists_parameter_scope (parameter : Parameter) :
    ∃ scope, ({} : Scope).add? parameter.name parameter.type = some (parameterSlot, scope) :=
  ⟨_, rfl⟩

/-- The faults of a compilation. -/
theorem result_cases (m : Manifest) (r : Registry) (f : Function) :
    (∃ p, (compilation m r f).result = .ok p ∧ Op.verify p.ops = .ok ()) ∨
      ∃ fault, (compilation m r f).result = .error (.located fault) ∧
        fault.loc ∈ Location.inFunction f ∧
        ∀ name, fault.fault = .noParameterSchema name →
          f.parameter ≠ none ∧ r.parameterIndex? f.name = none := by
  unfold compilation
  split
  next fault hentry =>
    refine Or.inr ⟨fault, rfl, ?_⟩
    unfold entry at hentry
    split at hentry
    next => cases hentry
    next hparameter =>
      split at hentry
      next hindex =>
        cases hentry
        exact ⟨List.mem_cons_self .., fun _ _ => ⟨by simp [hparameter], hindex⟩⟩
      next => cases hentry
  next prologue scope hentry =>
    split
    next failure hbody =>
      have hlies := Statement.compileAll_fault (List.Subset.refl _) hbody
      exact Or.inr ⟨failure.fault, rfl, List.mem_cons_of_mem _ hlies.mem,
        fun name h => absurd h (hlies.ne_noParameterSchema name)⟩
    next block hbody =>
      rcases finish_cases hentry hbody with herror | ⟨p, hp, hverify⟩
      · exact Or.inr ⟨_, herror, List.mem_cons_self .., by simp⟩
      · exact Or.inl ⟨p, hp, hverify⟩

/-- A function becomes a procedure that passes verification, or a fault of one of
five kinds is found at a node of its tree. A parameter always gets its slot, and it
always has a schema if the registry is that of the manifest of the function. -/
theorem compile_outcome (m : Manifest) (r : Registry) (f : Function) :
    ((∃ p, f.compile m r = .ok p ∧ Op.verify p.ops = .ok ()) ∨
      ∃ fault, f.compile m r = .error ⟨f.name, .located fault⟩ ∧
        fault.fault.kind ∈ [.unresolvedSymbol, .duplicateSymbol, .typeMismatch,
          .unsupportedConstruct, .controlFlow] ∧
        fault.loc ∈ Location.inFunction f) ∧
    (∀ parameter, f.parameter = some parameter → ∃ scope,
      ({} : Scope).add? parameter.name parameter.type = some (parameterSlot, scope)) ∧
    (Registry.ofManifest m = .ok r → .function f ∈ m.entities → ∀ loc name,
      f.compile m r ≠ .error ⟨f.name, .located ⟨loc, .noParameterSchema name⟩⟩) := by
  refine ⟨?_, fun parameter _ => exists_parameter_scope parameter, ?_⟩
  · rcases result_cases m r f with ⟨p, hp, hverify⟩ | ⟨fault, hfault, hloc, _⟩
    · exact Or.inl ⟨p, by rw [compile, hp]; rfl, hverify⟩
    · refine Or.inr ⟨fault, by rw [compile, hfault]; rfl, ?_, hloc⟩
      cases fault.fault.kind <;> decide
  · intro hregistry hf loc name herror
    rcases result_cases m r f with ⟨p, hp, _⟩ | ⟨fault, hfault, _, hschema⟩
    · rw [compile, hp] at herror
      cases herror
    · rw [compile, hfault] at herror
      cases herror
      obtain ⟨hparameter, hindex⟩ := hschema name rfl
      obtain ⟨parameter, hparameter⟩ := Option.ne_none_iff_exists'.mp hparameter
      exact Registry.parameterIndex?_ne_none hregistry hf hparameter hindex

/-- A name that is not in scope, in a branch. -/
def misspelledName : Function :=
  ofFlag none [.ifThen ⟨"", 2, 3⟩ .flag [.reference ⟨"", 3, 5⟩ "flog" []]]

/-- The fault lies in the function, and is not about its parameter. -/
theorem compile_outcome_misspelledName :
    Registry.ofManifest { entities := [.function misspelledName] } = .ok .ofFlag ∧
      ∃ fault, misspelledName.compile { entities := [.function misspelledName] } .ofFlag =
          .error ⟨"run", .located fault⟩ ∧
        fault.loc ∈ Location.inFunction misspelledName ∧
        ∀ name, fault.fault ≠ .noParameterSchema name := by
  have hregistry :
      Registry.ofManifest { entities := [.function misspelledName] } = .ok .ofFlag := rfl
  obtain ⟨hresult, _, hschema⟩ :=
    compile_outcome { entities := [.function misspelledName] } .ofFlag misspelledName
  refine ⟨hregistry, ?_⟩
  rcases hresult with ⟨p, hp, _⟩ | ⟨fault, hfault, _, hloc⟩
  · have hnone : (misspelledName.compile { entities := [.function misspelledName] }
        .ofFlag).toOption.isNone = true := by
      decide +kernel
    rw [hp] at hnone
    cases hnone
  · refine ⟨fault, hfault, hloc, ?_⟩
    rintro name heq
    exact hschema hregistry (List.mem_singleton_self _) fault.loc name (heq ▸ hfault)

end StoredProc.Function
