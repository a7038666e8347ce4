import Mathlib.Data.List.TakeWhile
import StoredProc.Command.Flags

/-! # Flags behind other arguments

A line of arguments is read from left to right with flags anywhere among the others. A reader
that stops at the first argument that is no flag comes to the same result once flags and their
values stand in front, but for two lines: `--` behind another argument is then taken for an
argument itself, and a flag at the end that lacks its value takes the first of the others for it.
-/

namespace StoredProc

/-- What a line says whose first part says `first` and whose last part says `last`. -/
def Arguments.append (first last : Arguments) : Arguments :=
  { settings := first.settings ++ last.settings
    positional := first.positional ++ last.positional }

namespace Flag

/-- Both readings fail, or both give every flag the same value and leave the same other
arguments in the same order. -/
def Agree : Except FlagError Arguments → Except FlagError Arguments → Prop
  | .ok first, .ok last =>
    (∀ name, first.get? name = last.get? name) ∧ first.positional = last.positional
  | .error _, .error _ => True
  | _, _ => False

/-- Read arguments from left to right, with flags anywhere among the others. -/
def readAnywhere (flags : List Flag) : List String → Except FlagError Arguments
  | [] => .ok {}
  | argument :: rest =>
    match shape argument with
    | .positional => (readAnywhere flags rest).map (Arguments.append { positional := [argument] })
    | .terminator => .ok { positional := rest }
    | .malformed => .error (.malformed argument)
    | .option name value =>
      match find? flags name, value with
      | none, _ => .error (unknown name)
      | some flag, some text =>
        match flag.readValue text with
        | .error cause => .error cause
        | .ok value => (readAnywhere flags rest).map (·.set name value)
      | some flag, none =>
        if flag.default.isBool then (readAnywhere flags rest).map (·.set name (.bool true))
        else
          match rest with
          | [] => .error (.missingValue name)
          | text :: rest =>
            match flag.readValue text with
            | .error cause => .error cause
            | .ok value => (readAnywhere flags rest).map (·.set name value)

/-! ## The look of a flag -/

/-- An argument with the look of a flag that is not `--`. -/
def IsFlag (argument : String) : Prop := isOption argument = true ∧ argument ≠ "--"

/-- An argument without the look of a flag is read as none. -/
theorem shape_of_not_isOption {argument : String} (h : isOption argument = false) :
    shape argument = .positional := by
  unfold isOption at h
  unfold shape
  split at h
  next => cases h
  next hnot =>
    split
    next heq => exact absurd heq (hnot '-' [])
    next text _ heq => exact absurd heq (hnot '-' text)
    next c text _ _ heq => exact absurd heq (hnot c text)
    next => rfl

/-- An argument with the look of a flag is an option with a name, or malformed. -/
theorem shape_of_isFlag {argument : String} (h : IsFlag argument) :
    shape argument = .malformed ∨ ∃ name value, shape argument = .option name value := by
  obtain ⟨hoption, hne⟩ := h
  have hsplit : ∀ text, splitOption text = .malformed ∨
      ∃ name value, splitOption text = .option name value := by
    intro text
    unfold splitOption
    split
    next => exact .inl rfl
    next =>
      split
      next => exact .inl rfl
      next =>
        dsimp only
        split
        next => exact .inr ⟨_, _, rfl⟩
        next => exact .inr ⟨_, _, rfl⟩
  unfold isOption at hoption
  unfold shape
  split
  next heq => exact absurd (String.toList_injective heq) hne
  next => exact hsplit _
  next => exact hsplit _
  next hnot =>
    split at hoption
    next c text heq => exact absurd heq (hnot c text)
    next => cases hoption

/-- The name of a flag ends at an equals sign, and a value follows exactly if there is one. -/
theorem splitOption_eq_option {text : List Char} {name : String} {value : Option String}
    (h : splitOption text = .option name value) :
    ∃ first rest, text = first :: rest ∧ first ≠ '-' ∧ first ≠ '=' ∧
      name = String.ofList (first :: rest.takeWhile (· ≠ '=')) ∧
      (value = none ↔ '=' ∉ rest) := by
  cases text with
  | nil => cases h
  | cons first rest =>
    by_cases hfirst : first = '-' || first = '='
    · rw [splitOption, if_pos hfirst] at h
      cases h
    · rw [splitOption, if_neg hfirst] at h
      obtain ⟨hdash, hequals⟩ : first ≠ '-' ∧ first ≠ '=' := by simpa using hfirst
      have hmem : rest.dropWhile (· ≠ '=') = [] ↔ '=' ∉ rest := by
        rw [List.dropWhile_eq_nil_iff]
        exact ⟨fun hall hin => by simpa using hall _ hin,
          fun hnot c hc => by simpa using fun heq : c = '=' => hnot (heq ▸ hc)⟩
      cases hdrop : rest.dropWhile (· ≠ '=') with
      | nil =>
        simp only [hdrop] at h
        cases h
        rw [hdrop] at hmem
        exact ⟨first, rest, rfl, hdash, hequals, rfl, by simpa using hmem⟩
      | cons c value =>
        simp only [hdrop] at h
        cases h
        rw [hdrop] at hmem
        exact ⟨first, rest, rfl, hdash, hequals, rfl, by simpa using hmem⟩

/-- The dashes in front of a flag are dropped. -/
theorem splitOption_of_shape {argument name : String} {value : Option String}
    (h : shape argument = .option name value) :
    splitOption (argument.toList.dropWhile (· = '-')) = .option name value := by
  unfold shape at h
  split at h
  next => cases h
  next text _ heq =>
    obtain ⟨first, rest, rfl, hdash, -⟩ := splitOption_eq_option h
    simpa [heq, List.dropWhile, hdash] using h
  next c text _ _ heq =>
    obtain ⟨first, rest, hcons, hdash, -⟩ := splitOption_eq_option h
    obtain ⟨rfl, rfl⟩ := List.cons.inj hcons
    simpa [heq, List.dropWhile, hdash] using h
  next => cases h

/-- A flag takes the next argument for its value exactly if none is written behind an equals
sign and the flag is no truth value. -/
theorem takesNext_of_shape (flags : List Flag) {argument name : String} {value : Option String}
    (h : shape argument = .option name value) :
    takesNext flags argument =
      (value.isNone && (find? flags name).any (!·.default.isBool)) := by
  obtain ⟨first, rest, htext, -, hequals, rfl, hvalue⟩ :=
    splitOption_eq_option (splitOption_of_shape h)
  have hcontains : (first :: rest).contains '=' = value.isSome := by
    cases value with
    | none => simpa [hequals.symm] using hvalue.1 rfl
    | some text => simpa [hequals.symm] using hvalue
  unfold takesNext
  simp only [htext, hcontains, Option.not_isSome]
  cases value with
  | some text => rfl
  | none =>
    have hwhole : rest.takeWhile (· ≠ '=') = rest :=
      List.takeWhile_eq_self_iff.2 fun c hc => by
        simpa using fun heq : c = '=' => hvalue.1 rfl (heq ▸ hc)
    rw [hwhole]
    cases find? flags (String.ofList (first :: rest)) <;> rfl

/-! ## Readings of parts -/

/-- The reading of a line whose parts are read as `first` and `last`. -/
def joined : Except FlagError Arguments → Except FlagError Arguments → Except FlagError Arguments
  | .error cause, _ => .error cause
  | .ok _, .error cause => .error cause
  | .ok first, .ok last => .ok (first.append last)

theorem joined_assoc (first middle last : Except FlagError Arguments) :
    joined (joined first middle) last = joined first (joined middle last) := by
  cases first <;> cases middle <;> cases last <;>
    simp [joined, Arguments.append]

@[simp] theorem joined_empty (last : Except FlagError Arguments) :
    joined (.ok {}) last = last := by
  cases last <;> rfl

@[simp] theorem joined_empty_right (first : Except FlagError Arguments) :
    joined first (.ok {}) = first := by
  cases first <;> simp [joined, Arguments.append]

theorem map_append (first : Arguments) (last : Except FlagError Arguments) :
    last.map first.append = joined (.ok first) last := by
  cases last <;> rfl

theorem map_set (name : String) (value : FlagValue) (last : Except FlagError Arguments) :
    last.map (·.set name value) = joined (.ok { settings := [(name, value)] }) last := by
  cases last <;> rfl

theorem readAnywhere_of_not_isOption (flags : List Flag) {argument : String}
    (h : isOption argument = false) (rest : List String) :
    readAnywhere flags (argument :: rest) =
      joined (.ok { positional := [argument] }) (readAnywhere flags rest) := by
  simp only [readAnywhere, shape_of_not_isOption h, map_append]

/-- A reader that stops at the first argument that is no flag leaves the whole rest. -/
theorem read_of_not_isOption (flags : List Flag) {argument : String}
    (h : isOption argument = false) (rest : List String) :
    read flags (argument :: rest) = .ok { positional := argument :: rest } := by
  simp only [read, shape_of_not_isOption h]

/-- A part of a line holds whole flags only: both readers read it apart from what follows. -/
structure ReadApart (flags : List Flag) (part : List String) : Prop where
  read_append (rest : List String) :
    read flags (part ++ rest) = joined (read flags part) (read flags rest)
  readAnywhere_append (rest : List String) :
    readAnywhere flags (part ++ rest) = joined (read flags part) (readAnywhere flags rest)
  positional_eq_nil {found : Arguments} (h : read flags part = .ok found) : found.positional = []

namespace ReadApart

variable {flags : List Flag} {argument : String}

theorem nil : ReadApart flags [] where
  read_append _ := (joined_empty _).symm
  readAnywhere_append _ := (joined_empty _).symm
  positional_eq_nil h := by
    cases h
    rfl

/-- Parts that are read apart are read apart together. -/
theorem append {first last : List String} (hfirst : ReadApart flags first)
    (hlast : ReadApart flags last) : ReadApart flags (first ++ last) where
  read_append rest := by
    rw [List.append_assoc, hfirst.read_append, hlast.read_append, hfirst.read_append,
      joined_assoc]
  readAnywhere_append rest := by
    rw [List.append_assoc, hfirst.readAnywhere_append, hlast.readAnywhere_append,
      hfirst.read_append, joined_assoc]
  positional_eq_nil h := by
    rw [hfirst.read_append] at h
    cases hreadFirst : read flags first with
    | error cause => simp [hreadFirst, joined] at h
    | ok foundFirst =>
      cases hreadLast : read flags last with
      | error cause => simp [hreadFirst, hreadLast, joined] at h
      | ok foundLast =>
        obtain rfl : foundFirst.append foundLast = _ := by
          simpa [hreadFirst, hreadLast, joined] using h
        simp [Arguments.append, hfirst.positional_eq_nil hreadFirst,
          hlast.positional_eq_nil hreadLast]

/-- A part that is refused for what stands in it is refused whatever follows. -/
theorem of_error {part : List String} (cause : FlagError)
    (hread : ∀ rest, read flags (part ++ rest) = .error cause)
    (hanywhere : ∀ rest, readAnywhere flags (part ++ rest) = .error cause) :
    ReadApart flags part := by
  have hpart : read flags part = .error cause := by simpa using hread []
  refine ⟨fun rest => ?_, fun rest => ?_, fun h => ?_⟩
  · rw [hread, hpart, joined]
  · rw [hanywhere, hpart, joined]
  · rw [hpart] at h
    cases h

/-- A part that sets a flag is read apart. -/
theorem of_set {part : List String} (name : String) (value : FlagValue)
    (hread : ∀ rest, read flags (part ++ rest) = (read flags rest).map (·.set name value))
    (hanywhere : ∀ rest, readAnywhere flags (part ++ rest) =
      (readAnywhere flags rest).map (·.set name value)) :
    ReadApart flags part := by
  have hpart : read flags part = .ok { settings := [(name, value)] } := by
    have hnil := hread []
    rw [List.append_nil] at hnil
    exact hnil
  refine ⟨fun rest => ?_, fun rest => ?_, fun h => ?_⟩
  · rw [hread, hpart, map_set]
  · rw [hanywhere, hpart, map_set]
  · rw [hpart] at h
    cases h
    rfl

/-- A flag that takes no value from the next argument is read apart. -/
theorem flag (hflag : IsFlag argument) (htakes : takesNext flags argument = false) :
    ReadApart flags [argument] := by
  obtain hshape | ⟨name, value, hshape⟩ := shape_of_isFlag hflag
  · exact of_error (.malformed argument) (fun rest => by simp [read, hshape])
      (fun rest => by simp [readAnywhere, hshape])
  rw [takesNext_of_shape flags hshape] at htakes
  cases hfind : find? flags name with
  | none =>
    exact of_error (unknown name) (fun rest => by simp [read, hshape, hfind])
      (fun rest => by simp [readAnywhere, hshape, hfind])
  | some flag =>
    cases value with
    | some text =>
      cases hvalue : flag.readValue text with
      | error cause =>
        exact of_error cause (fun rest => by simp [read, hshape, hfind, hvalue])
          (fun rest => by simp [readAnywhere, hshape, hfind, hvalue])
      | ok value =>
        exact of_set name value (fun rest => by simp [read, hshape, hfind, hvalue])
          (fun rest => by simp [readAnywhere, hshape, hfind, hvalue])
    | none =>
      have hbool : flag.default.isBool = true := by simpa [hfind] using htakes
      exact of_set name (.bool true) (fun rest => by simp [read, hshape, hfind, hbool])
        (fun rest => by simp [readAnywhere, hshape, hfind, hbool])

/-- A flag is read apart together with the argument that it takes its value from. -/
theorem flag_value (hflag : IsFlag argument) (htakes : takesNext flags argument = true)
    (text : String) : ReadApart flags [argument, text] := by
  obtain hshape | ⟨name, value, hshape⟩ := shape_of_isFlag hflag
  · exact of_error (.malformed argument) (fun rest => by simp [read, hshape])
      (fun rest => by simp [readAnywhere, hshape])
  rw [takesNext_of_shape flags hshape] at htakes
  cases hfind : find? flags name with
  | none => simp [hfind] at htakes
  | some flag =>
    obtain ⟨rfl, hbool⟩ : value = none ∧ flag.default.isBool = false := by
      simpa [hfind] using htakes
    cases hvalue : flag.readValue text with
    | error cause =>
      exact of_error cause (fun rest => by simp [read, hshape, hfind, hbool, hvalue])
        (fun rest => by simp [readAnywhere, hshape, hfind, hbool, hvalue])
    | ok value =>
      exact of_set name value (fun rest => by simp [read, hshape, hfind, hbool, hvalue])
        (fun rest => by simp [readAnywhere, hshape, hfind, hbool, hvalue])

end ReadApart

/-- At the end of a line a flag that takes a value is refused. -/
theorem read_lacking {flags : List Flag} {argument : String} (hflag : IsFlag argument)
    (htakes : takesNext flags argument = true) :
    (∃ cause, read flags [argument] = .error cause) ∧
      readAnywhere flags [argument] = read flags [argument] := by
  obtain hshape | ⟨name, value, hshape⟩ := shape_of_isFlag hflag
  · simp [read, readAnywhere, hshape]
  rw [takesNext_of_shape flags hshape] at htakes
  cases hfind : find? flags name with
  | none => simp [read, readAnywhere, hshape, hfind]
  | some flag =>
    obtain ⟨rfl, hbool⟩ : value = none ∧ flag.default.isBool = false := by
      simpa [hfind] using htakes
    simp [read, readAnywhere, hshape, hfind, hbool]

/-! ## The parts of a line -/

/-- Where the flags of a line end. -/
inductive FlagsEnd where
  | line
  | terminator (rest : List String)
  /-- With a flag that takes a value and has none behind it. -/
  | lacking (argument : String)
  deriving DecidableEq, Inhabited, Repr

namespace FlagsEnd

def options : FlagsEnd → List String
  | lacking argument => [argument]
  | _ => []

def plain : FlagsEnd → List String
  | terminator rest => "--" :: rest
  | _ => []

/-- How the end of a line is read where it stands. -/
def reading (flags : List Flag) : FlagsEnd → Except FlagError Arguments
  | line => .ok {}
  | terminator rest => .ok { positional := rest }
  | lacking argument => read flags [argument]

end FlagsEnd

/-- The flags of a line with their values, the other arguments up to the end of the flags, and
that end. -/
structure Survey where
  options : List String := []
  plain : List String := []
  ending : FlagsEnd := .line
  deriving DecidableEq, Inhabited, Repr

/-- The parts of a line. -/
def survey (flags : List Flag) : List String → Survey
  | [] => {}
  | argument :: rest =>
    if argument = "--" then { ending := .terminator rest }
    else if !isOption argument then
      let s := survey flags rest
      { s with plain := argument :: s.plain }
    else if takesNext flags argument then
      match rest with
      | [] => { ending := .lacking argument }
      | value :: rest =>
        let s := survey flags rest
        { s with options := argument :: value :: s.options }
    else
      let s := survey flags rest
      { s with options := argument :: s.options }

section parts

variable {flags : List Flag} {argument : String}

theorem survey_terminator (rest : List String) :
    survey flags ("--" :: rest) = { ending := .terminator rest } := by
  rw [survey.eq_def]
  exact if_pos rfl

theorem survey_plain (h : isOption argument = false) (rest : List String) :
    survey flags (argument :: rest) =
      { survey flags rest with plain := argument :: (survey flags rest).plain } := by
  have hne : argument ≠ "--" := by
    rintro rfl
    cases h
  rw [survey.eq_def]
  simp only [hne, h, Bool.not_false, if_true, if_false]

theorem survey_flag (hflag : IsFlag argument) (htakes : takesNext flags argument = false)
    (rest : List String) :
    survey flags (argument :: rest) =
      { survey flags rest with options := argument :: (survey flags rest).options } := by
  rw [survey.eq_def]
  simp [hflag.1, hflag.2, htakes]

theorem survey_flag_value (hflag : IsFlag argument) (htakes : takesNext flags argument = true)
    (text : String) (rest : List String) :
    survey flags (argument :: text :: rest) =
      { survey flags rest with options := argument :: text :: (survey flags rest).options } := by
  rw [survey.eq_def]
  simp [hflag.1, hflag.2, htakes]

theorem survey_lacking (hflag : IsFlag argument) (htakes : takesNext flags argument = true) :
    survey flags [argument] = { ending := .lacking argument } := by
  rw [survey.eq_def]
  simp [hflag.1, hflag.2, htakes]

end parts

/-- A line is empty or starts with `--`, with an argument that is no flag, or with a flag and
the value it takes, which may be missing at the end. -/
theorem line_induction {motive : List String → Prop} (flags : List Flag) (nil : motive [])
    (terminator : ∀ rest, motive ("--" :: rest))
    (plain : ∀ argument rest, isOption argument = false → motive rest →
      motive (argument :: rest))
    (lacking : ∀ argument, IsFlag argument → takesNext flags argument = true →
      motive [argument])
    (value : ∀ argument text rest, IsFlag argument → takesNext flags argument = true →
      motive rest → motive (argument :: text :: rest))
    (flag : ∀ argument rest, IsFlag argument → takesNext flags argument = false →
      motive rest → motive (argument :: rest)) (arguments : List String) :
    motive arguments := by
  fun_induction divide flags arguments with
  | case1 => exact nil
  | case2 rest => exact terminator rest
  | case3 argument rest hne hplain _ _ _ ih => exact plain argument rest (by simpa using hplain) ih
  | case4 argument hne hoption htakes => exact lacking argument ⟨by simpa using hoption, hne⟩ htakes
  | case5 argument hne hoption htakes text rest _ _ _ ih =>
    exact value argument text rest ⟨by simpa using hoption, hne⟩ htakes ih
  | case6 argument rest hne hoption htakes _ _ _ ih =>
    exact flag argument rest ⟨by simpa using hoption, hne⟩ (by simpa using htakes) ih

/-- The division of a line is read off from its parts. -/
theorem divide_eq (flags : List Flag) (arguments : List String) :
    divide flags arguments =
      ((survey flags arguments).options ++ (survey flags arguments).ending.options,
        (survey flags arguments).plain ++ (survey flags arguments).ending.plain) := by
  induction arguments using line_induction flags with
  | nil => rfl
  | terminator rest =>
    rw [survey_terminator, divide.eq_def]
    exact if_pos rfl
  | plain argument rest h ih =>
    have hne : argument ≠ "--" := by
      rintro rfl
      cases h
    rw [survey_plain h, divide.eq_def]
    simp [hne, h, ih]
  | lacking argument hflag htakes =>
    rw [survey_lacking hflag htakes, divide.eq_def]
    simp [hflag.1, hflag.2, htakes, FlagsEnd.options, FlagsEnd.plain]
  | value argument text rest hflag htakes ih =>
    rw [survey_flag_value hflag htakes, divide.eq_def]
    simp [hflag.1, hflag.2, htakes, ih]
  | flag argument rest hflag htakes ih =>
    rw [survey_flag hflag htakes, divide.eq_def]
    simp [hflag.1, hflag.2, htakes, ih]

/-- The parts of a line are what they are named for. -/
structure Survey.Sound (flags : List Flag) (s : Survey) : Prop where
  options : ReadApart flags s.options
  plain : ∀ argument ∈ s.plain, isOption argument = false
  ending : ∀ argument, s.ending = .lacking argument →
    IsFlag argument ∧ takesNext flags argument = true

/-- The parts of every line are what they are named for. -/
theorem survey_sound (flags : List Flag) (arguments : List String) :
    (survey flags arguments).Sound flags := by
  induction arguments using line_induction flags with
  | nil => exact ⟨.nil, by simp [survey], by simp [survey]⟩
  | terminator rest =>
    rw [survey_terminator]
    exact ⟨.nil, by simp, by simp⟩
  | plain argument rest h ih =>
    rw [survey_plain h]
    exact ⟨ih.options, by simpa [h] using ih.plain, ih.ending⟩
  | lacking argument hflag htakes =>
    rw [survey_lacking hflag htakes]
    refine ⟨.nil, by simp, fun last hlast => ?_⟩
    cases hlast
    exact ⟨hflag, htakes⟩
  | value argument text rest hflag htakes ih =>
    rw [survey_flag_value hflag htakes]
    exact ⟨(ReadApart.flag_value hflag htakes text).append ih.options, ih.plain, ih.ending⟩
  | flag argument rest hflag htakes ih =>
    rw [survey_flag hflag htakes]
    exact ⟨(ReadApart.flag hflag htakes).append ih.options, ih.plain, ih.ending⟩

/-- A line is read from left to right as its flags, its other arguments and its end. -/
theorem readAnywhere_eq (flags : List Flag) (arguments : List String) :
    readAnywhere flags arguments =
      joined (read flags (survey flags arguments).options)
        (joined (.ok { positional := (survey flags arguments).plain })
          ((survey flags arguments).ending.reading flags)) := by
  induction arguments using line_induction flags with
  | nil => rfl
  | terminator rest =>
    rw [survey_terminator]
    rfl
  | plain argument rest h ih =>
    rw [survey_plain h, readAnywhere_of_not_isOption flags h, ih]
    cases hread : read flags (survey flags rest).options with
    | error cause => rfl
    | ok found =>
      -- the flags leave no other arguments, so the argument passes over them
      have hnone := (survey_sound flags rest).options.positional_eq_nil hread
      simp only [← joined_assoc]
      simp [joined, Arguments.append, hnone]
  | lacking argument hflag htakes =>
    rw [survey_lacking hflag htakes, (read_lacking hflag htakes).2]
    exact (joined_empty _).symm.trans (joined_empty _).symm
  | value argument text rest hflag htakes ih =>
    have happart := ReadApart.flag_value hflag htakes text
    rw [survey_flag_value hflag htakes]
    calc readAnywhere flags (argument :: text :: rest)
      _ = joined (read flags [argument, text]) (readAnywhere flags rest) :=
        happart.readAnywhere_append rest
      _ = _ := by rw [ih, ← joined_assoc, ← happart.read_append]; rfl
  | flag argument rest hflag htakes ih =>
    have happart := ReadApart.flag hflag htakes
    rw [survey_flag hflag htakes]
    calc readAnywhere flags (argument :: rest)
      _ = joined (read flags [argument]) (readAnywhere flags rest) :=
        happart.readAnywhere_append rest
      _ = _ := by rw [ih, ← joined_assoc, ← happart.read_append]; rfl

/-! ## Flags first -/

theorem moveFirst_eq (flags : List Flag) (arguments : List String) :
    moveFirst flags arguments =
      (survey flags arguments).options ++ ((survey flags arguments).ending.options ++
        ((survey flags arguments).plain ++ (survey flags arguments).ending.plain)) := by
  unfold moveFirst
  rw [divide_eq]
  exact List.append_assoc _ _ _

/-- Arguments that are no flags are left as they are. -/
theorem read_plain {flags : List Flag} {plain : List String}
    (h : ∀ argument ∈ plain, isOption argument = false) :
    read flags plain = .ok { positional := plain } := by
  cases plain with
  | nil => rfl
  | cons first plain => exact read_of_not_isOption flags (h first List.mem_cons_self) plain

/-- Whether a line says something else once its flags stand in front. The flags before the end
can be read, and `--` stands behind another argument, or the flag that lacks its value can take
the first of the other arguments for it. -/
def Survey.misread (flags : List Flag) (s : Survey) : Bool :=
  match read flags s.options, s.ending, s.plain with
  | .ok _, .terminator _, _ :: _ => true
  | .ok _, .lacking argument, value :: _ =>
    match read flags [argument, value] with
    | .ok _ => true
    | .error _ => false
  | _, _, _ => false

/-- What a misread line is taken for, and what it says. -/
inductive Misreading (flags : List Flag) (s : Survey) :
    Except FlagError Arguments → Except FlagError Arguments → Prop
  /-- The terminator is left among the other arguments. -/
  | terminator {rest : List String} {found : Arguments} (hending : s.ending = .terminator rest)
      (hfound : read flags s.options = .ok found) (hplain : s.plain ≠ []) :
      Misreading flags s
        (.ok { settings := found.settings, positional := s.plain ++ "--" :: rest })
        (.ok { settings := found.settings, positional := s.plain ++ rest })
  /-- The first of the other arguments is taken for the value that is missing. -/
  | lacking {argument value : String} {plain : List String} {found taken : Arguments}
      {cause : FlagError} (hending : s.ending = .lacking argument)
      (hfound : read flags s.options = .ok found) (hplain : s.plain = value :: plain)
      (htaken : read flags [argument, value] = .ok taken)
      (hcause : read flags [argument] = .error cause) :
      Misreading flags s
        (.ok { settings := found.settings ++ taken.settings, positional := plain })
        (.error cause)

/-- What a misread line is taken for is not what it says. -/
theorem Misreading.not_agree {flags : List Flag} {s : Survey}
    {moved straight : Except FlagError Arguments} (h : Misreading flags s moved straight) :
    ¬ Agree moved straight := by
  cases h with
  | terminator hending hfound hplain =>
    rintro ⟨-, hpositional⟩
    have hlength := congrArg List.length hpositional
    simp at hlength
  | lacking => exact id

theorem Agree.refl (result : Except FlagError Arguments) : Agree result result := by
  cases result with
  | error cause => trivial
  | ok found => exact ⟨fun name => rfl, rfl⟩

/-- Moving the flags first keeps what a line says, or misreads it. -/
theorem read_moveFirst_cases (flags : List Flag) (arguments : List String) :
    if (survey flags arguments).misread flags then
      Misreading flags (survey flags arguments) (read flags (moveFirst flags arguments))
        (readAnywhere flags arguments)
    else Agree (read flags (moveFirst flags arguments)) (readAnywhere flags arguments) := by
  have hsound := survey_sound flags arguments
  rw [moveFirst_eq, hsound.options.read_append, readAnywhere_eq]
  generalize survey flags arguments = s at hsound
  obtain ⟨options, plain, ending⟩ := s
  obtain ⟨hoptions, hplain, hlacking⟩ := hsound
  dsimp only at hoptions hplain hlacking ⊢
  cases hfound : read flags options with
  | error cause =>
    rw [if_neg (by simp [Survey.misread, hfound])]
    exact Agree.refl (.error cause)
  | ok found =>
    have hnone := hoptions.positional_eq_nil hfound
    cases ending with
    | line =>
      rw [if_neg (by simp [Survey.misread, hfound])]
      simp only [FlagsEnd.options, FlagsEnd.plain, FlagsEnd.reading, List.nil_append,
        List.append_nil, read_plain hplain, joined_empty_right]
      exact Agree.refl _
    | terminator rest =>
      cases plain with
      | nil =>
        rw [if_neg (by simp [Survey.misread, hfound])]
        exact Agree.refl _
      | cons first plain =>
        have hmoved : read flags (first :: plain ++ "--" :: rest) =
            .ok { positional := first :: plain ++ "--" :: rest } :=
          read_of_not_isOption flags (hplain first List.mem_cons_self) _
        rw [if_pos (by simp [Survey.misread, hfound])]
        simp only [FlagsEnd.options, FlagsEnd.plain, FlagsEnd.reading, List.nil_append, hmoved,
          joined, Arguments.append, hnone, List.append_nil]
        exact .terminator rfl hfound (List.cons_ne_nil first plain)
    | lacking argument =>
      obtain ⟨hflag, htakes⟩ := hlacking argument rfl
      obtain ⟨⟨missing, hmissing⟩, -⟩ := read_lacking hflag htakes
      cases plain with
      | nil =>
        rw [if_neg (by simp [Survey.misread, hfound])]
        simp only [FlagsEnd.options, FlagsEnd.plain, FlagsEnd.reading, List.append_nil, hmissing]
        exact Agree.refl (.error missing)
      | cons value plain =>
        have hvalue := ReadApart.flag_value hflag htakes value
        have hrest : read flags plain = .ok { positional := plain } :=
          read_plain fun argument hmem => hplain argument (List.mem_cons_of_mem value hmem)
        have hmoved : read flags ([argument] ++ (value :: plain ++ [])) =
            joined (read flags [argument, value]) (.ok { positional := plain }) := by
          rw [← hrest, ← hvalue.read_append, List.append_nil]
          rfl
        simp only [FlagsEnd.options, FlagsEnd.plain, FlagsEnd.reading, hmoved, hmissing]
        cases htaken : read flags [argument, value] with
        | error cause =>
          -- both readings fail, though for different causes
          rw [if_neg (by simp [Survey.misread, hfound, htaken])]
          trivial
        | ok taken =>
          rw [if_pos (by simp [Survey.misread, hfound, htaken])]
          simp only [joined, Arguments.append, hnone, hvalue.positional_eq_nil htaken,
            List.nil_append, List.append_nil]
          exact .lacking rfl hfound rfl htaken hmissing

/-- Flags moved in front are read as the line says, from left to right, exactly if the line is
not misread: no `--` stands behind another argument, and no flag at the end lacks a value for
which the first of the other arguments would do. A misread line leaves `--` among its arguments,
or is accepted without the argument that was taken for the value. -/
theorem agree_read_moveFirst_iff (flags : List Flag) (arguments : List String) :
    (Agree (read flags (moveFirst flags arguments)) (readAnywhere flags arguments) ↔
      (survey flags arguments).misread flags = false) ∧
    ((survey flags arguments).misread flags = true ↔
      Misreading flags (survey flags arguments) (read flags (moveFirst flags arguments))
        (readAnywhere flags arguments)) := by
  have hcases := read_moveFirst_cases flags arguments
  cases hmisread : (survey flags arguments).misread flags with
  | true =>
    rw [hmisread, if_pos rfl] at hcases
    exact ⟨iff_of_false hcases.not_agree (by simp), iff_of_true rfl hcases⟩
  | false =>
    rw [hmisread, if_neg Bool.false_ne_true] at hcases
    exact ⟨iff_of_true hcases rfl,
      iff_of_false Bool.false_ne_true fun hread => hread.not_agree hcases⟩

/-- Behind a path `--` stays an argument, and a flag for a path takes the path of the line. -/
theorem not_agree_lateTerminator_lateFlag :
    ¬ Agree (read [] (moveFirst [] ["a", "--", "b"])) (readAnywhere [] ["a", "--", "b"]) ∧
    ¬ Agree (read [{ name := "o", default := .text "" }]
          (moveFirst [{ name := "o", default := .text "" }] ["m.json", "-o"]))
        (readAnywhere [{ name := "o", default := .text "" }] ["m.json", "-o"]) := by
  constructor
  · rintro ⟨-, hpositional⟩
    revert hpositional
    decide
  · exact id

end Flag

end StoredProc
