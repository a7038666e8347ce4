import StoredProc.Tree.Basic

/-! # The numbers of a tree

A number literal keeps its text. Two trees that agree when some of these texts are masked
are the same tree if one of them has no text that the mask changes.
-/

namespace StoredProc

/-! ## Texts -/

mutual

/-- The texts of the number literals in an expression, in their order. -/
@[simp]
def Expr.numbers : Expr → List String
  | .reference _ _ dots => Dot.numbersAll dots
  | .string .. => []
  | .number _ text => [text]
  | .array _ elements => Expr.numbersAll elements
  | .object _ fields => Expr.numbersFields fields
  | .lambda _ _ body => Statement.numbersAll body

@[simp]
def Dot.numbers : Dot → List String
  | .field .. => []
  | .method _ _ args => Expr.numbersAll args

@[simp]
def Statement.numbers : Statement → List String
  | .reference _ _ dots => Dot.numbersAll dots
  | .create _ _ _ value => value.numbers
  | .ret _ none => []
  | .ret _ (some value) => value.numbers
  | .ifThen _ condition body => condition.numbers ++ Statement.numbersAll body
  | .forIn _ _ iterable body => iterable.numbers ++ Statement.numbersAll body

@[simp]
def Expr.numbersAll : List Expr → List String
  | [] => []
  | expr :: rest => expr.numbers ++ Expr.numbersAll rest

@[simp]
def Expr.numbersFields : List (String × Expr) → List String
  | [] => []
  | (_, value) :: rest => value.numbers ++ Expr.numbersFields rest

@[simp]
def Dot.numbersAll : List Dot → List String
  | [] => []
  | dot :: rest => dot.numbers ++ Dot.numbersAll rest

@[simp]
def Statement.numbersAll : List Statement → List String
  | [] => []
  | statement :: rest => statement.numbers ++ Statement.numbersAll rest

end

/-! ## Other texts -/

mutual

/-- The same expression with the texts of its number literals changed. -/
@[simp]
def Expr.mapNumbers (change : String → String) : Expr → Expr
  | .reference loc name dots => .reference loc name (Dot.mapNumbersAll change dots)
  | .string loc value => .string loc value
  | .number loc text => .number loc (change text)
  | .array loc elements => .array loc (Expr.mapNumbersAll change elements)
  | .object loc fields => .object loc (Expr.mapNumbersFields change fields)
  | .lambda loc row body => .lambda loc row (Statement.mapNumbersAll change body)

@[simp]
def Dot.mapNumbers (change : String → String) : Dot → Dot
  | .field loc name => .field loc name
  | .method loc name args => .method loc name (Expr.mapNumbersAll change args)

@[simp]
def Statement.mapNumbers (change : String → String) : Statement → Statement
  | .reference loc name dots => .reference loc name (Dot.mapNumbersAll change dots)
  | .create loc name type value => .create loc name type (value.mapNumbers change)
  | .ret loc none => .ret loc none
  | .ret loc (some value) => .ret loc (some (value.mapNumbers change))
  | .ifThen loc condition body =>
    .ifThen loc (condition.mapNumbers change) (Statement.mapNumbersAll change body)
  | .forIn loc row iterable body =>
    .forIn loc row (iterable.mapNumbers change) (Statement.mapNumbersAll change body)

@[simp]
def Expr.mapNumbersAll (change : String → String) : List Expr → List Expr
  | [] => []
  | expr :: rest => expr.mapNumbers change :: Expr.mapNumbersAll change rest

@[simp]
def Expr.mapNumbersFields (change : String → String) :
    List (String × Expr) → List (String × Expr)
  | [] => []
  | (name, value) :: rest => (name, value.mapNumbers change) :: Expr.mapNumbersFields change rest

@[simp]
def Dot.mapNumbersAll (change : String → String) : List Dot → List Dot
  | [] => []
  | dot :: rest => dot.mapNumbers change :: Dot.mapNumbersAll change rest

@[simp]
def Statement.mapNumbersAll (change : String → String) : List Statement → List Statement
  | [] => []
  | statement :: rest =>
    statement.mapNumbers change :: Statement.mapNumbersAll change rest

end

section Lists

variable (change : String → String)

theorem Expr.mapNumbersAll_eq_map (exprs : List Expr) :
    Expr.mapNumbersAll change exprs = exprs.map (Expr.mapNumbers change) := by
  induction exprs with
  | nil => rfl
  | cons expr rest ih => rw [Expr.mapNumbersAll, ih, List.map_cons]

theorem Expr.mapNumbersFields_eq_map (fields : List (String × Expr)) :
    Expr.mapNumbersFields change fields =
      fields.map fun field => (field.1, field.2.mapNumbers change) := by
  induction fields with
  | nil => rfl
  | cons field rest ih => rw [Expr.mapNumbersFields, ih, List.map_cons]

theorem Dot.mapNumbersAll_eq_map (dots : List Dot) :
    Dot.mapNumbersAll change dots = dots.map (Dot.mapNumbers change) := by
  induction dots with
  | nil => rfl
  | cons dot rest ih => rw [Dot.mapNumbersAll, ih, List.map_cons]

theorem Statement.mapNumbersAll_eq_map (statements : List Statement) :
    Statement.mapNumbersAll change statements = statements.map (Statement.mapNumbers change) := by
  induction statements with
  | nil => rfl
  | cons statement rest ih => rw [Statement.mapNumbersAll, ih, List.map_cons]

end Lists

section Laws

variable {change : String → String}

mutual

theorem Expr.numbers_mapNumbers :
    ∀ expr : Expr, (expr.mapNumbers change).numbers = expr.numbers.map change
  | .reference _ _ dots => Dot.numbersAll_mapNumbersAll dots
  | .string .. | .number .. => rfl
  | .array _ elements => Expr.numbersAll_mapNumbersAll elements
  | .object _ fields => Expr.numbersFields_mapNumbersFields fields
  | .lambda _ _ body => Statement.numbersAll_mapNumbersAll body

theorem Dot.numbers_mapNumbers :
    ∀ dot : Dot, (dot.mapNumbers change).numbers = dot.numbers.map change
  | .field .. => rfl
  | .method _ _ args => Expr.numbersAll_mapNumbersAll args

theorem Statement.numbers_mapNumbers : ∀ statement : Statement,
    (statement.mapNumbers change).numbers = statement.numbers.map change
  | .reference _ _ dots => Dot.numbersAll_mapNumbersAll dots
  | .create _ _ _ value => Expr.numbers_mapNumbers value
  | .ret _ none => rfl
  | .ret _ (some value) => Expr.numbers_mapNumbers value
  | .ifThen _ condition body => by
      simp [Expr.numbers_mapNumbers condition, Statement.numbersAll_mapNumbersAll body]
  | .forIn _ _ iterable body => by
      simp [Expr.numbers_mapNumbers iterable, Statement.numbersAll_mapNumbersAll body]

theorem Expr.numbersAll_mapNumbersAll : ∀ exprs : List Expr,
    Expr.numbersAll (Expr.mapNumbersAll change exprs) = (Expr.numbersAll exprs).map change
  | [] => rfl
  | expr :: rest => by
      simp [Expr.numbers_mapNumbers expr, Expr.numbersAll_mapNumbersAll rest]

theorem Expr.numbersFields_mapNumbersFields : ∀ fields : List (String × Expr),
    Expr.numbersFields (Expr.mapNumbersFields change fields) =
      (Expr.numbersFields fields).map change
  | [] => rfl
  | (_, value) :: rest => by
      simp [Expr.numbers_mapNumbers value, Expr.numbersFields_mapNumbersFields rest]

theorem Dot.numbersAll_mapNumbersAll : ∀ dots : List Dot,
    Dot.numbersAll (Dot.mapNumbersAll change dots) = (Dot.numbersAll dots).map change
  | [] => rfl
  | dot :: rest => by
      simp [Dot.numbers_mapNumbers dot, Dot.numbersAll_mapNumbersAll rest]

theorem Statement.numbersAll_mapNumbersAll : ∀ statements : List Statement,
    Statement.numbersAll (Statement.mapNumbersAll change statements) =
      (Statement.numbersAll statements).map change
  | [] => rfl
  | statement :: rest => by
      simp [Statement.numbers_mapNumbers statement, Statement.numbersAll_mapNumbersAll rest]

end

mutual

theorem Expr.mapNumbers_eq_self : ∀ expr : Expr,
    (∀ text ∈ expr.numbers, change text = text) → expr.mapNumbers change = expr
  | .reference loc name dots, h =>
      congrArg (Expr.reference loc name) (Dot.mapNumbersAll_eq_self dots h)
  | .string .., _ => rfl
  | .number loc text, h => congrArg (Expr.number loc) (h text (List.mem_singleton_self text))
  | .array loc elements, h => congrArg (Expr.array loc) (Expr.mapNumbersAll_eq_self elements h)
  | .object loc fields, h => congrArg (Expr.object loc) (Expr.mapNumbersFields_eq_self fields h)
  | .lambda loc row body, h =>
      congrArg (Expr.lambda loc row) (Statement.mapNumbersAll_eq_self body h)

theorem Dot.mapNumbers_eq_self : ∀ dot : Dot,
    (∀ text ∈ dot.numbers, change text = text) → dot.mapNumbers change = dot
  | .field .., _ => rfl
  | .method loc name args, h => congrArg (Dot.method loc name) (Expr.mapNumbersAll_eq_self args h)

theorem Statement.mapNumbers_eq_self : ∀ statement : Statement,
    (∀ text ∈ statement.numbers, change text = text) → statement.mapNumbers change = statement
  | .reference loc name dots, h =>
      congrArg (Statement.reference loc name) (Dot.mapNumbersAll_eq_self dots h)
  | .create loc name type value, h =>
      congrArg (Statement.create loc name type) (Expr.mapNumbers_eq_self value h)
  | .ret _ none, _ => rfl
  | .ret loc (some value), h =>
      congrArg (fun value => Statement.ret loc (some value)) (Expr.mapNumbers_eq_self value h)
  | .ifThen loc condition body, h => by
      rw [Statement.numbers, List.forall_mem_append] at h
      rw [Statement.mapNumbers, Expr.mapNumbers_eq_self condition h.1,
        Statement.mapNumbersAll_eq_self body h.2]
  | .forIn loc row iterable body, h => by
      rw [Statement.numbers, List.forall_mem_append] at h
      rw [Statement.mapNumbers, Expr.mapNumbers_eq_self iterable h.1,
        Statement.mapNumbersAll_eq_self body h.2]

theorem Expr.mapNumbersAll_eq_self : ∀ exprs : List Expr,
    (∀ text ∈ Expr.numbersAll exprs, change text = text) → Expr.mapNumbersAll change exprs = exprs
  | [], _ => rfl
  | expr :: rest, h => by
      rw [Expr.numbersAll, List.forall_mem_append] at h
      rw [Expr.mapNumbersAll, Expr.mapNumbers_eq_self expr h.1, Expr.mapNumbersAll_eq_self rest h.2]

theorem Expr.mapNumbersFields_eq_self : ∀ fields : List (String × Expr),
    (∀ text ∈ Expr.numbersFields fields, change text = text) →
      Expr.mapNumbersFields change fields = fields
  | [], _ => rfl
  | (name, value) :: rest, h => by
      rw [Expr.numbersFields, List.forall_mem_append] at h
      rw [Expr.mapNumbersFields, Expr.mapNumbers_eq_self value h.1,
        Expr.mapNumbersFields_eq_self rest h.2]

theorem Dot.mapNumbersAll_eq_self : ∀ dots : List Dot,
    (∀ text ∈ Dot.numbersAll dots, change text = text) → Dot.mapNumbersAll change dots = dots
  | [], _ => rfl
  | dot :: rest, h => by
      rw [Dot.numbersAll, List.forall_mem_append] at h
      rw [Dot.mapNumbersAll, Dot.mapNumbers_eq_self dot h.1, Dot.mapNumbersAll_eq_self rest h.2]

theorem Statement.mapNumbersAll_eq_self : ∀ statements : List Statement,
    (∀ text ∈ Statement.numbersAll statements, change text = text) →
      Statement.mapNumbersAll change statements = statements
  | [], _ => rfl
  | statement :: rest, h => by
      rw [Statement.numbersAll, List.forall_mem_append] at h
      rw [Statement.mapNumbersAll, Statement.mapNumbers_eq_self statement h.1,
        Statement.mapNumbersAll_eq_self rest h.2]

end

end Laws

/-! ## Texts of lists and objects -/

/-- Whether a text starts like a list or an object. Such a text is no number. -/
def isBracketed (text : String) : Bool :=
  match text.toList with
  | '[' :: _ | '{' :: _ => true
  | _ => false

theorem exists_cons_of_isBracketed {text : String} (h : isBracketed text = true) :
    ∃ c rest, text.toList = c :: rest ∧ (c = '[' ∨ c = '{') := by
  unfold isBracketed at h
  split at h
  next rest hcs => exact ⟨'[', rest, hcs, .inl rfl⟩
  next rest hcs => exact ⟨'{', rest, hcs, .inr rfl⟩
  next => cases h

/-- A text, or a bracket for all texts that start like a list or an object. -/
def maskBrackets (text : String) : String := if isBracketed text then "[" else text

theorem maskBrackets_eq_self {text : String} (h : isBracketed text = false) :
    maskBrackets text = text := by
  rw [maskBrackets, h]
  rfl

theorem isBracketed_maskBrackets (text : String) :
    isBracketed (maskBrackets text) = isBracketed text := by
  rw [maskBrackets]
  cases h : isBracketed text with
  | true => simp [isBracketed]
  | false => exact h

/-- The mask hides nothing in statements whose number texts are no lists or objects. -/
theorem Statement.eq_of_maskBrackets {body other : List Statement}
    (h : Statement.mapNumbersAll maskBrackets body = Statement.mapNumbersAll maskBrackets other)
    (hplain : ∀ text ∈ Statement.numbersAll body, isBracketed text = false) : body = other := by
  have htexts := congrArg Statement.numbersAll h
  rw [Statement.numbersAll_mapNumbersAll, Statement.numbersAll_mapNumbersAll] at htexts
  have hother : ∀ text ∈ Statement.numbersAll other, isBracketed text = false := by
    intro text htext
    have hmem := List.mem_map_of_mem (f := maskBrackets) htext
    rw [← htexts] at hmem
    obtain ⟨given, hgiven, heq⟩ := List.mem_map.mp hmem
    rw [← isBracketed_maskBrackets, ← heq, isBracketed_maskBrackets, hplain given hgiven]
  calc
    body = Statement.mapNumbersAll maskBrackets body :=
      (Statement.mapNumbersAll_eq_self body fun text htext =>
        maskBrackets_eq_self (hplain text htext)).symm
    _ = Statement.mapNumbersAll maskBrackets other := h
    _ = other := Statement.mapNumbersAll_eq_self other fun text htext =>
      maskBrackets_eq_self (hother text htext)

end StoredProc
