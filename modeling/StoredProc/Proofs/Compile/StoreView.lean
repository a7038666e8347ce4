import StoredProc.Compile.Batch

/-! # What compiling reads of a manifest

Code depends on a manifest only through the record types of its stores, and a build only
through its entities. So the identity of the document a manifest was read from leaves no
trace in a build.
-/

namespace StoredProc

/-- Two manifests have the same stores. -/
def Manifest.SameStores (m m' : Manifest) : Prop := ∀ name, m.store? name = m'.store? name

namespace Expr

variable {m m' : Manifest} {scope : Scope}

mutual

/-- An expression has the same code for manifests with the same stores: nothing else of a
manifest is looked at. -/
theorem code_eq (h : m.SameStores m') : ∀ (target : DataType) (expr : Expr),
    expr.code m scope target = expr.code m' scope target
  | target, .reference loc name dots => by
      rw [code, code]
      simp only [chainCode_eq h _ dots, h name]
      cases scope.get? name with
      | some held => rfl
      | none =>
          cases m'.store? name with
          | some schema => exact storeCode_eq h target loc name schema dots
          | none => rfl
  | target, .string loc value => by rw [code, code]
  | target, .number loc text => by rw [code, code]
  | target, .array loc elements => by
      rw [code, code]
      simp only [elementsCode_eq h _ elements]
  | target, .object loc fields => by
      rw [code, code]
      simp only [fieldsCode_eq h _ fields]
  | target, .lambda loc row body => by rw [code, code]
termination_by _ expr => sizeOf expr

theorem elementsCode_eq (h : m.SameStores m') : ∀ (elem : DataType) (exprs : List Expr),
    elementsCode m scope elem exprs = elementsCode m' scope elem exprs
  | elem, [] => by rw [elementsCode, elementsCode]
  | elem, expr :: rest => by
      rw [elementsCode, elementsCode]
      simp only [code_eq h elem expr, elementsCode_eq h elem rest]
termination_by _ exprs => sizeOf exprs

theorem fieldsCode_eq (h : m.SameStores m') :
    ∀ (expected : Option Fields) (entries : List (String × Expr)),
      fieldsCode m scope expected entries = fieldsCode m' scope expected entries
  | expected, [] => by rw [fieldsCode, fieldsCode]
  | expected, (name, expr) :: rest => by
      rw [fieldsCode, fieldsCode]
      simp only [code_eq h _ expr, fieldsCode_eq h expected rest]
termination_by _ entries => sizeOf entries

theorem insertsCode_eq (h : m.SameStores m') (store : String) (schema : Fields) :
    ∀ exprs : List Expr,
      insertsCode m scope store schema exprs = insertsCode m' scope store schema exprs
  | [] => by rw [insertsCode, insertsCode]
  | expr :: rest => by
      rw [insertsCode, insertsCode]
      simp only [code_eq h _ expr, insertsCode_eq h store schema rest]
termination_by exprs => sizeOf exprs

theorem storeCode_eq (h : m.SameStores m') (target : DataType) (loc : Location) (store : String)
    (schema : Fields) : ∀ dots : List Dot,
      storeCode m scope target loc store schema dots =
        storeCode m' scope target loc store schema dots
  | [] => by rw [storeCode, storeCode]
  | [.field loc name] => by rw [storeCode, storeCode]
  | [.method loc name args] => by
      rw [storeCode, storeCode]
      simp only [insertsCode_eq h store schema args]
  | _ :: second :: rest => by rw [storeCode, storeCode]
termination_by dots => sizeOf dots

theorem chainCode_eq (h : m.SameStores m') : ∀ (current : DataType) (dots : List Dot),
    chainCode m scope current dots = chainCode m' scope current dots
  | current, [] => by rw [chainCode, chainCode]
  | current, dot :: rest => by
      rw [chainCode, chainCode]
      simp only [dotCode_eq h current dot, chainCode_eq h _ rest]
termination_by _ dots => sizeOf dots

theorem dotCode_eq (h : m.SameStores m') : ∀ (current : DataType) (dot : Dot),
    dotCode m scope current dot = dotCode m' scope current dot
  | current, .field loc name => by rw [dotCode, dotCode]
  | .ref store, .method loc name args => by
      rw [dotCode, dotCode]
      simp only [h store]
      match args with
      | [] => rfl
      | [.lambda loc row body] => simp only [mutationCode_eq h loc row _ body]
      | [.reference ..] | [.string ..] | [.number ..] | [.array ..] | [.object ..] => rfl
      | first :: _ :: _ => cases first <;> rfl
  | .array _, .method loc name args => by rw [dotCode, dotCode]
  | .prim _, .method loc name args | .object _, .method loc name args
  | .optional _, .method loc name args | .any, .method loc name args
  | .nothing, .method loc name args => by rw [dotCode, dotCode] <;> simp
termination_by _ dot => sizeOf dot

theorem mutationCode_eq (h : m.SameStores m') (loc : Location) (row : String) (schema : Fields) :
    ∀ body : List Statement,
      mutationCode m scope loc row schema body = mutationCode m' scope loc row schema body
  | [.reference loc name dots, last] => by
      rw [mutationCode, mutationCode]
      simp only [appendCode_eq h _ _ dots]
  | [.create .., last] | [.ret .., last] | [.ifThen .., last] | [.forIn .., last] => by
      rw [mutationCode, mutationCode] <;> simp
  | [] | [_] | _ :: _ :: _ :: _ => by rw [mutationCode, mutationCode] <;> simp
termination_by body => sizeOf body

theorem appendCode_eq (h : m.SameStores m') :
    ∀ (current : DataType) (loc : Location) (dots : List Dot),
      appendCode m scope current loc dots = appendCode m' scope current loc dots
  | current, loc, [] => by rw [appendCode, appendCode]
  | current, loc, [.method methodLoc name [value]] => by
      cases current with
      | array elem =>
          rw [appendCode, appendCode]
          simp only [code_eq h elem value]
      | _ => rw [appendCode, appendCode] <;> simp
  | current, loc, .field fieldLoc name :: rest => by
      rw [appendCode, appendCode]
      simp only [appendCode_eq h _ _ rest]
  | current, loc, [.method _ _ []] | current, loc, [.method _ _ (_ :: _ :: _)]
  | current, loc, .method _ _ _ :: _ :: _ => by rw [appendCode, appendCode] <;> simp
termination_by _ _ dots => sizeOf dots

end

end Expr

namespace Statement

variable {m m' : Manifest} {target : DataType}

theorem returnCode_eq (h : m.SameStores m') (scope : Scope) (loc : Location) (value : Option Expr) :
    returnCode m target scope loc value = returnCode m' target scope loc value := by
  cases value with
  | none => rfl
  | some value => simp only [returnCode, Expr.code_eq h]

mutual

/-- So has a statement. -/
theorem compile_eq (h : m.SameStores m') : ∀ (scope : Scope) (statement : Statement),
    statement.compile m target scope = statement.compile m' target scope
  | scope, .reference loc name dots => by simp only [compile, effectCode, Expr.code_eq h]
  | scope, .create loc name type value => by simp only [compile, createCode, Expr.code_eq h]
  | scope, .ret loc value => by simp only [compile, returnCode_eq h]
  | scope, .ifThen loc condition body => by
      simp only [compile, Expr.code_eq h, compileAll_eq h scope.start none body]
  | scope, .forIn loc row iterable body => by simp only [compile]
termination_by _ statement => sizeOf statement

/-- So has a block. -/
theorem compileAll_eq (h : m.SameStores m') :
    ∀ (scope : Scope) (returned : Option Location) (body : List Statement),
      compileAll m target scope returned body = compileAll m' target scope returned body
  | scope, returned, [] => by simp only [compileAll]
  | scope, returned, statement :: rest => by
      cases returned with
      | some loc => simp only [compileAll]
      | none =>
          simp only [compileAll, compile_eq h scope statement]
          cases statement.compile m' target scope with
          | error failure => rfl
          | ok first => simp only [compileAll_eq h first.scope first.returned rest]
termination_by _ _ body => sizeOf body

end

end Statement

theorem Function.compile_eq {m m' : Manifest} (h : m.SameStores m') (r : Registry) (f : Function) :
    f.compile m r = f.compile m' r := by
  simp only [Function.compile, Function.compilation, Statement.compileAll_eq h]

/-- A build is made from the entities of a manifest alone. -/
theorem Manifest.compile_eq_of_entities {m m' : Manifest} (h : m.entities = m'.entities) :
    m.compile = m'.compile := by
  have hstores : m.SameStores m' := by
    intro name
    rw [Manifest.store?, Manifest.store?, Manifest.get?, Manifest.get?, h]
  have hfunctions : m.functions = m'.functions := by
    rw [Manifest.functions, Manifest.functions, h]
  have hcompile : ∀ r f, Function.compile m r f = Function.compile m' r f :=
    fun r f => Function.compile_eq hstores r f
  simp only [Manifest.compile, Registry.ofManifest, h, Manifest.program, Manifest.procedures,
    Manifest.failures, hfunctions, hcompile]

end StoredProc
