import StoredProc.Command.Run
import StoredProc.Proofs.Compile.Elaboration

/-! # Settings and flags

Settings from a file and from the environment are checked before a command starts. Flags are
put over them and are not checked as a whole: a level or a format that is unknown stops the
command, but a negative number of workers, an indentation out of bounds and a format without a
name are taken. So a document is written with settings that were never allowed, and a negative
indentation crashes the command behind a build that succeeded.
-/

namespace StoredProc

/-! ## What settings allow -/

namespace Config

/-- What is allowed: a known level, one of the two formats, workers and an indentation that are
not negative, and an indentation up to the limit. -/
theorem validate_eq_ok_iff {c : Config} :
    c.validate = .ok () ↔ (∃ level, LogLevel.read c.logLevel = .ok level) ∧
      (c.logFormat = "json" ∨ c.logFormat = "console") ∧ 0 ≤ c.workers ∧ 0 ≤ c.indent ∧
        c.indent ≤ maxIndent := by
  have hformat : (c.logFormat ≠ LogFormat.json.name && c.logFormat ≠ LogFormat.console.name) =
      true ↔ ¬(c.logFormat = "json" ∨ c.logFormat = "console") := by
    rw [Bool.and_eq_true, decide_eq_true_eq, decide_eq_true_eq, not_or]
    rfl
  have hindent : (c.indent < 0 || (maxIndent : Int) < c.indent) = true ↔
      ¬(0 ≤ c.indent ∧ c.indent ≤ maxIndent) := by
    simp only [Bool.or_eq_true, decide_eq_true_eq]
    omega
  unfold validate
  cases LogLevel.read c.logLevel with
  | error cause => simp
  | ok level =>
      simp only [hformat, hindent]
      by_cases hnamed : c.logFormat = "json" ∨ c.logFormat = "console"
      · by_cases hworkers : c.workers < 0
        · simp [hnamed, hworkers, Int.not_le.mpr hworkers]
        · by_cases hdepth : 0 ≤ c.indent ∧ c.indent ≤ maxIndent
          · simp [hnamed, hworkers, hdepth, Int.not_lt.mp hworkers]
          · simp [hnamed, hworkers, hdepth]
      · simp [hnamed]

/-- The settings with the flags put over them. -/
def overriddenBy (c : Config) (a : Arguments) : Config :=
  { c with
    logLevel := a.textOf "log-level" c.logLevel
    logFormat := a.textOf "log-format" c.logFormat
    workers := a.intOf "workers" c.workers
    indent := a.intOf "indent" c.indent }

theorem validate_of_applyEnv {c changed : Config} {env : Environment}
    (h : c.applyEnv env = .ok changed) : changed.validate = .ok () := by
  unfold applyEnv at h
  obtain ⟨workers, -, h⟩ := bind_ok_iff.mp h
  obtain ⟨indent, -, h⟩ := bind_ok_iff.mp h
  obtain ⟨⟨⟩, hvalid, h⟩ := bind_ok_iff.mp h
  cases h
  exact hvalid

/-- Whatever a file and the environment say, settings that are loaded are allowed. -/
theorem validate_of_load {d : Disk} {env : Environment} {c : Config} (h : load d env = .ok c) :
    c.validate = .ok () := by
  unfold load at h
  obtain ⟨found, -, h⟩ := bind_ok_iff.mp h
  cases happly : found.applyEnv env with
  | error cause =>
      rw [happly] at h
      cases h
  | ok changed =>
      rw [happly] at h
      cases h
      exact validate_of_applyEnv happly

end Config

namespace Arguments

/-- Whether flags give a setting that is not allowed and that no command looks at: a negative
number of workers, an indentation out of bounds, or a format without a name. -/
def isOverlooked (a : Arguments) : Bool :=
  a.intOf "workers" 0 < 0 || a.intOf "indent" 0 < 0 ||
    (Config.maxIndent : Int) < a.intOf "indent" 0 || a.textOf "log-format" "json" = ""

theorem isOverlooked_eq_false_iff {a : Arguments} :
    a.isOverlooked = false ↔ 0 ≤ a.intOf "workers" 0 ∧
      (0 ≤ a.intOf "indent" 0 ∧ a.intOf "indent" 0 ≤ Config.maxIndent) ∧
        a.textOf "log-format" "json" ≠ "" := by
  simp only [isOverlooked, Bool.or_eq_false_iff, decide_eq_false_iff_not, Int.not_lt, and_assoc,
    ne_eq]

/-- A flag that is not given leaves an allowed setting. -/
theorem intOf_iff (allowed : Int → Prop) {setting fallback : Int} (hsetting : allowed setting)
    (hfallback : allowed fallback) (a : Arguments) (name : String) :
    allowed (a.intOf name setting) ↔ allowed (a.intOf name fallback) := by
  unfold intOf
  split
  next => exact Iff.rfl
  next => exact iff_of_true hsetting hfallback

/-- Where setting and fallback are both allowed, only a flag can bring in a text that is not. -/
theorem textOf_iff (allowed : String → Prop) {setting fallback : String}
    (hsetting : allowed setting) (hfallback : allowed fallback) (a : Arguments) (name : String) :
    allowed (a.textOf name setting) ↔ allowed (a.textOf name fallback) := by
  unfold textOf
  split
  next => exact Iff.rfl
  next => exact iff_of_true hsetting hfallback

end Arguments

/-- The known formats are the two with names and the one without. -/
theorem LogFormat.ofName?_eq_some {name : String} {format : LogFormat}
    (h : ofName? name = some format) : name = "" ∨ name = "json" ∨ name = "console" := by
  unfold ofName? at h
  split at h
  next hjson =>
    rw [Bool.or_eq_true, String.isEmpty_iff, decide_eq_true_eq] at hjson
    exact hjson.imp_right .inl
  next =>
    split at h
    next hconsole => exact .inr (.inr hconsole)
    next => cases h

/-- Over allowed settings, flags whose level and format are known give allowed settings exactly
if none is overlooked. -/
theorem Config.validate_overriddenBy_iff {c : Config} {a : Arguments} {level : LogLevel}
    {format : LogFormat} (hvalid : c.validate = .ok ())
    (hlevel : LogLevel.read (a.textOf "log-level" c.logLevel) = .ok level)
    (hformat : LogFormat.ofName? (a.textOf "log-format" c.logFormat) = some format) :
    (c.overriddenBy a).validate = .ok () ↔ a.isOverlooked = false := by
  obtain ⟨-, hnamed, hworkers, hindent, hdepth⟩ := validate_eq_ok_iff.mp hvalid
  have hempty : c.logFormat ≠ "" := by
    rcases hnamed with h | h <;> rw [h] <;> decide
  have hknown := LogFormat.ofName?_eq_some hformat
  have hformats : (a.textOf "log-format" c.logFormat = "json" ∨
      a.textOf "log-format" c.logFormat = "console") ↔ a.textOf "log-format" c.logFormat ≠ "" := by
    constructor
    · rintro (h | h) <;> rw [h] <;> decide
    · exact hknown.resolve_left
  rw [validate_eq_ok_iff, Arguments.isOverlooked_eq_false_iff,
    ← Arguments.intOf_iff (0 ≤ ·) hworkers (Int.le_refl 0) a "workers",
    ← Arguments.intOf_iff (fun indent => 0 ≤ indent ∧ indent ≤ maxIndent) ⟨hindent, hdepth⟩
      (by decide) a "indent",
    ← Arguments.textOf_iff (· ≠ "") hempty (by decide) a "log-format", ← hformats]
  constructor
  · rintro ⟨-, hnamed, hworkers, hindent⟩
    exact ⟨hworkers, hindent, hnamed⟩
  · rintro ⟨hworkers, hindent, hnamed⟩
    exact ⟨⟨level, hlevel⟩, hnamed, hworkers, hindent⟩

/-! ## The course of a command -/

/-- Of the faults of a document none is a negative indentation. -/
theorem Json.indent_neg_of_indentText {document : String} {indent : Int}
    (h : indentText document indent = .error .negative) : indent < 0 := by
  unfold indentText at h
  split at h
  next => cases h
  next =>
    split at h
    next hneg => exact hneg
    next =>
      cases hreindent : reindent (String.ofList (List.replicate indent.toNat ' ')) document with
      | ok text =>
          rw [hreindent] at h
          cases h
      | error fault =>
          rw [hreindent] at h
          cases h

/-- Writing a document fails at once only for a negative indentation. -/
theorem Destination.indent_neg_of_write {target : Destination} {d : Disk} {document : String}
    {cause : Error} (h : target.write d document = .error cause) (hfatal : cause.isFatal = true) :
    target.indent < 0 := by
  unfold write at h
  cases hindent : Json.indentText document target.indent with
  | error reason =>
      rw [hindent] at h
      cases h
      cases reason with
      | text fault => cases hfatal
      | negative => exact Json.indent_neg_of_indentText hindent
  | ok indented =>
      rw [hindent] at h
      have hrest : (if target.path.isEmpty then pure (d, indented ++ "\n") else do
          let d ← (d.write target.path (indented ++ "\n")).mapError .file
          return (d, "")) = (.error cause : Except Error (Disk × String)) := h
      split at hrest
      next => cases hrest
      next =>
        cases hwrite : d.write target.path (indented ++ "\n") with
        | ok written =>
            rw [hwrite] at hrest
            cases hrest
        | error reason =>
            rw [hwrite] at hrest
            cases hrest
            cases hfatal

namespace Builder

/-- A builder is made only for a level and a format that are known. -/
theorem options_of_ofOptions {options : BuildOptions} {d after : Disk}
    {directory time opened : String} {b : Builder}
    (h : ofOptions options d directory time = .ok (b, after, opened)) :
    (∃ level, LogLevel.read options.logLevel = .ok level) ∧
      ∃ format, LogFormat.ofName? options.logFormat = some format := by
  unfold ofOptions at h
  obtain ⟨logger, hlogger, -⟩ := bind_ok_iff.mp h
  unfold Logger.ofNames at hlogger
  obtain ⟨level, hlevel, hlogger⟩ := bind_ok_iff.mp hlogger
  refine ⟨?_, ?_⟩
  · cases hread : LogLevel.read options.logLevel with
    | error cause =>
        rw [hread] at hlevel
        cases hlevel
    | ok level => exact ⟨level, rfl⟩
  · cases hformat : LogFormat.ofName? options.logFormat with
    | none =>
        rw [hformat] at hlogger
        cases hlogger
    | some format => exact ⟨format, rfl⟩

/-- What comes of building a manifest and writing its document. -/
def attempt (b : Builder) (target : Destination) (d : Disk) (path : String) :
    WatchSession.Verdict :=
  match b.build d path with
  | (.error _, _, _) => .failed
  | (.ok result, after, _) =>
    match target.write (after.close d) result.document with
    | .ok _ => .succeeded
    | .error cause => if cause.isFatal then .crashed else .failed

/-- Only a negative indentation crashes, behind a build that succeeded. -/
theorem indent_neg_of_attempt {b : Builder} {target : Destination} {d : Disk} {path : String}
    (h : b.attempt target d path = .crashed) : target.indent < 0 := by
  unfold attempt at h
  split at h
  next => cases h
  next result after log _ =>
    split at h
    next => cases h
    next cause hwrite =>
      split at h
      next hfatal => exact Destination.indent_neg_of_write hwrite hfatal
      next => cases h

end Builder

/-! ## Watch sessions -/

namespace WatchSession

/-- A build of a session is an attempt with its builder, and writes where the session does. -/
theorem rebuild_spec (s : WatchSession) (d : Disk) :
    (s.rebuild d).verdict = s.builder.attempt s.destination d (Path.ofNames (s.place d)) ∧
      (s.rebuild d).session.destination = s.destination := by
  unfold rebuild Builder.attempt
  obtain ⟨built, builder, log⟩ := s.builder.build d (Path.ofNames (s.place d))
  cases built with
  | error cause => exact ⟨rfl, rfl⟩
  | ok result =>
      dsimp only
      cases s.destination.write (builder.close d) result.document with
      | ok written => exact ⟨rfl, rfl⟩
      | error cause =>
          dsimp only
          split <;> exact ⟨rfl, rfl⟩

theorem session_next (s : WatchSession) (d : Disk) :
    (s.next d).session = (s.rebuild d).session := by
  unfold next
  rfl

theorem verdict_next (s : WatchSession) (d : Disk) :
    (s.next d).verdict = (s.rebuild d).verdict := by
  unfold next
  rfl

/-- The builds of a session: the first on a disk, and those after it on whatever the disk has
become. -/
inductive Rounds (first : WatchSession) (d : Disk) : Round → Prop
  | start : Rounds first d (first.rebuild d)
  | next {round : Round} (h : Rounds first d round) (hgoing : round.verdict ≠ .crashed)
      (later : Disk) : Rounds first d (round.session.next later)

/-- All rounds of a session write to the same place. -/
theorem Rounds.destination_eq {first : WatchSession} {d : Disk} {round : Round}
    (h : Rounds first d round) : round.session.destination = first.destination := by
  induction h with
  | start => exact (rebuild_spec first d).2
  | next _ _ later ih => rw [session_next, (rebuild_spec _ later).2, ih]

/-- A round crashes only for a negative indentation of the session. -/
theorem Rounds.indent_neg {first : WatchSession} {d : Disk} {round : Round}
    (h : Rounds first d round) (hcrashed : round.verdict = .crashed) :
    first.destination.indent < 0 := by
  cases h with
  | start =>
      rw [(rebuild_spec first d).1] at hcrashed
      exact Builder.indent_neg_of_attempt hcrashed
  | @next round h _ later =>
      rw [verdict_next, (rebuild_spec round.session later).1] at hcrashed
      rw [← h.destination_eq]
      exact Builder.indent_neg_of_attempt hcrashed

end WatchSession

/-! ## Commands -/

namespace Command

/-- What a command has before its first build. -/
structure Prepared where
  arguments : Arguments
  path : String
  builder : Builder
  disk : Disk
  opened : String

/-- Everything a command does before its first build. -/
def prepare (command : Subcommand) (c : Config) (s : Surroundings) (arguments : List String) :
    Except Outcome Prepared := do
  let a ← readArguments command c s arguments
  let path ← requirePath s a
  let (builder, disk, opened) ← requireBuilder c s a
  return { arguments := a, path, builder, disk, opened }

def Prepared.session (p : Prepared) (c : Config) (s : Surroundings) : WatchSession :=
  { builder := p.builder, path := p.path, destination := destinationOf c p.arguments,
    colors := colors s }

/-- What comes of the build of `compile`. -/
def Prepared.verdict (p : Prepared) (c : Config) : WatchSession.Verdict :=
  { p.builder with traced := p.arguments.boolOf "trace" false : Builder }.attempt
    (destinationOf c p.arguments) p.disk p.path

/-- How `compile` ends by what came of its build. -/
def endingOf : WatchSession.Verdict → Ending
  | .succeeded => .exit 0
  | .failed => .exit 1
  | .crashed => .crashed (Destination.Error.indent .negative).message

theorem ok_bind {ε α β : Type} (value : α) (next : α → Except ε β) :
    (Except.ok value >>= next) = next value :=
  rfl

/-- A command that is not prepared ends with status 1, or after its help. -/
theorem prepare_error {command : Subcommand} {c : Config} {s : Surroundings}
    {arguments : List String} {outcome : Outcome}
    (h : prepare command c s arguments = .error outcome) :
    outcome.ending = .exit 1 ∨
      Subcommand.asksHelp arguments = true ∧ outcome.ending = .exit 0 := by
  unfold prepare at h
  cases hread : readArguments command c s arguments with
  | error early =>
      rw [hread] at h
      cases h
      unfold readArguments at hread
      split at hread
      next hhelp =>
        cases hread
        exact .inr ⟨hhelp, rfl⟩
      next =>
        split at hread
        next =>
          cases hread
          exact .inl rfl
        next => cases hread
  | ok a =>
      rw [hread, ok_bind] at h
      cases hpath : requirePath s a with
      | error early =>
          rw [hpath] at h
          cases h
          unfold requirePath at hpath
          split at hpath
          next =>
            split at hpath
            next =>
              cases hpath
              exact .inl rfl
            next => cases hpath
          next =>
            cases hpath
            exact .inl rfl
      | ok path =>
          rw [hpath, ok_bind] at h
          unfold requireBuilder at h
          cases hmake : Builder.ofOptions (.ofArguments c a) s.disk (c.cacheDirectory s.environment)
            s.time with
          | error cause =>
              rw [hmake] at h
              cases h
              exact .inl rfl
          | ok made =>
              rw [hmake] at h
              cases h

/-- The builder of a prepared command has a level and a format that are known. -/
theorem prepare_ok {command : Subcommand} {c : Config} {s : Surroundings}
    {arguments : List String} {p : Prepared} (h : prepare command c s arguments = .ok p) :
    (∃ level, LogLevel.read (p.arguments.textOf "log-level" c.logLevel) = .ok level) ∧
      ∃ format, LogFormat.ofName? (p.arguments.textOf "log-format" c.logFormat) = some format := by
  unfold prepare at h
  obtain ⟨a, -, h⟩ := bind_ok_iff.mp h
  obtain ⟨path, -, h⟩ := bind_ok_iff.mp h
  obtain ⟨⟨b, d, opened⟩, hmade, h⟩ := bind_ok_iff.mp h
  cases h
  unfold requireBuilder at hmade
  cases hmake : Builder.ofOptions (.ofArguments c a) s.disk (c.cacheDirectory s.environment)
    s.time with
  | error cause =>
      rw [hmake] at hmade
      cases hmade
  | ok made =>
      obtain ⟨made, after, log⟩ := made
      exact Builder.options_of_ofOptions hmake

/-- What a command does with its arguments, its path and its builder, it does once it is
prepared. -/
theorem bind_prepare (command : Subcommand) (c : Config) (s : Surroundings)
    (arguments : List String)
    (next : Arguments → String → Builder × Disk × String → Except Outcome Outcome) :
    (readArguments command c s arguments >>= fun a => requirePath s a >>= fun path =>
      requireBuilder c s a >>= next a path) =
    prepare command c s arguments >>= fun p =>
      next p.arguments p.path (p.builder, p.disk, p.opened) := by
  unfold prepare
  cases readArguments command c s arguments with
  | error outcome => rfl
  | ok a =>
      rw [ok_bind, ok_bind]
      cases requirePath s a with
      | error outcome => rfl
      | ok path =>
          rw [ok_bind, ok_bind]
          cases requireBuilder c s a <;> rfl

/-- How `compile` ends is decided before its build or by what came of it. -/
theorem ending_compile (c : Config) (s : Surroundings) (arguments : List String) :
    (compile c s arguments).ending =
      match prepare .compile c s arguments with
      | .error outcome => outcome.ending
      | .ok p => endingOf (p.verdict c) := by
  unfold compile
  rw [bind_prepare]
  cases prepare .compile c s arguments with
  | error outcome => rfl
  | ok p =>
      rw [ok_bind]
      unfold Prepared.verdict Builder.attempt
      dsimp only
      generalize { p.builder with traced := p.arguments.boolOf "trace" false : Builder }.build
        p.disk p.path = build
      obtain ⟨built, after, log⟩ := build
      cases built with
      | error cause => rfl
      | ok result =>
          dsimp only
          cases (destinationOf c p.arguments).write (after.close p.disk) result.document with
          | ok written => rfl
          | error cause =>
              cases cause with
              | file cause => rfl
              | indent reason => cases reason <;> rfl

/-- A watch session starts unless its directory cannot be watched, or its first build
crashes. -/
theorem ending_watch (c : Config) (s : Surroundings) (arguments : List String) :
    (watch c s arguments).ending =
      match prepare .watch c s arguments with
      | .error outcome => outcome.ending
      | .ok p =>
        match (p.session c s).obstacle? p.disk with
        | some _ => .exit 1
        | none =>
          if ((p.session c s).rebuild p.disk).verdict = .crashed then endingOf .crashed
          else .watching ((p.session c s).rebuild p.disk).session := by
  unfold watch
  rw [bind_prepare]
  cases prepare .watch c s arguments with
  | error outcome => rfl
  | ok p =>
      rw [ok_bind]
      dsimp only [Prepared.session, pure, Except.pure]
      cases WatchSession.obstacle? _ p.disk with
      | some reason => rfl
      | none =>
          simp only [settle, endingOf]
          exact ite_congr rfl (fun _ => rfl) fun _ => rfl

theorem run_compile (s : Surroundings) (arguments : List String) :
    run s (Subcommand.compile.name :: arguments) =
      match Config.load s.disk s.environment with
      | .error cause => .refusal s.disk (cause.message unreadable)
      | .ok c => compile c s arguments :=
  rfl

theorem run_watch (s : Surroundings) (arguments : List String) :
    run s (Subcommand.watch.name :: arguments) =
      match Config.load s.disk s.environment with
      | .error cause => .refusal s.disk (cause.message unreadable)
      | .ok c => watch c s arguments :=
  rfl

/-! ## Attempts to write a document -/

/-- The builds that a command line leads to, each with the settings and the flags that it is made
with and with what came of it: one for `compile`, one for each round of `watch`. -/
inductive Attempts (s : Surroundings) (arguments : List String) :
    Subcommand → Config → Arguments → WatchSession.Verdict → Prop
  | compile {c : Config} {p : Prepared} (hload : Config.load s.disk s.environment = .ok c)
      (hprepare : prepare .compile c s arguments = .ok p) :
      Attempts s arguments .compile c p.arguments (p.verdict c)
  | watch {c : Config} {p : Prepared} {round : WatchSession.Round}
      (hload : Config.load s.disk s.environment = .ok c)
      (hprepare : prepare .watch c s arguments = .ok p)
      (hfree : (p.session c s).obstacle? p.disk = none)
      (hround : (p.session c s).Rounds p.disk round) :
      Attempts s arguments .watch c p.arguments round.verdict

namespace Attempts

variable {s : Surroundings} {arguments : List String} {command : Subcommand} {c : Config}
  {a : Arguments} {verdict : WatchSession.Verdict}

/-- A build is made with allowed settings exactly if no flag is overlooked. -/
theorem validate_iff (h : Attempts s arguments command c a verdict) :
    (c.overriddenBy a).validate = .ok () ↔ a.isOverlooked = false := by
  cases h with
  | compile hload hprepare =>
      obtain ⟨⟨level, hlevel⟩, format, hformat⟩ := prepare_ok hprepare
      exact Config.validate_overriddenBy_iff (Config.validate_of_load hload) hlevel hformat
  | watch hload hprepare hfree hround =>
      obtain ⟨⟨level, hlevel⟩, format, hformat⟩ := prepare_ok hprepare
      exact Config.validate_overriddenBy_iff (Config.validate_of_load hload) hlevel hformat

/-- A build that crashes is made with an indentation that is not allowed. -/
theorem isOverlooked_of_crashed (h : Attempts s arguments command c a verdict)
    (hcrashed : verdict = .crashed) : a.isOverlooked = true := by
  have hindent : a.intOf "indent" c.indent < 0 := by
    cases h with
    | compile => exact Builder.indent_neg_of_attempt hcrashed
    | watch _ _ _ hround => exact hround.indent_neg hcrashed
  cases hover : a.isOverlooked with
  | true => rfl
  | false =>
      obtain ⟨-, -, -, hpos, -⟩ := Config.validate_eq_ok_iff.mp (h.validate_iff.mpr hover)
      exact absurd hindent (Int.not_lt.mpr hpos)

end Attempts

/-- A command that has written a document does not end with status 1. -/
theorem Attempts.ending_ne_exit_one {s : Surroundings} {arguments : List String}
    {command : Subcommand} {c : Config} {a : Arguments} {verdict : WatchSession.Verdict}
    (h : Attempts s arguments command c a verdict) (hwritten : verdict = .succeeded) :
    (run s (command.name :: arguments)).ending ≠ .exit 1 := by
  cases h with
  | compile hload hprepare =>
      rw [run_compile, hload]
      dsimp only
      rw [ending_compile, hprepare]
      dsimp only
      rw [hwritten]
      simp [endingOf]
  | watch hload hprepare hfree _ =>
      rw [run_watch, hload]
      dsimp only
      rw [ending_watch, hprepare]
      dsimp only
      rw [hfree]
      dsimp only
      split <;> simp [endingOf]

/-- Settings are checked whatever they come from: no build crashes, no document is written with
settings that are not allowed, and a command that writes none ends with status 1 unless it shows
its help. A watch session goes on when a build fails. -/
structure Guarded (command : Subcommand) (s : Surroundings) (arguments : List String) : Prop where
  alive : ∀ message, (run s (command.name :: arguments)).ending ≠ .crashed message
  goesOn : ∀ c a, ¬ Attempts s arguments command c a .crashed
  allowed : ∀ c a, Attempts s arguments command c a .succeeded →
    (c.overriddenBy a).validate = .ok ()
  stops : Subcommand.asksHelp arguments = true ∨
    ((run s (command.name :: arguments)).ending = .exit 1 ∧
      ∀ c a, ¬ Attempts s arguments command c a .succeeded) ∨
    (∃ c a, Attempts s arguments command c a .succeeded) ∨
    ∃ session, (run s (command.name :: arguments)).ending = .watching session

/-- A run is accounted for by its builds: it shows its help, ends with status 1, has written a
document, goes on as a session, or has a build that crashed. -/
def Accounted (command : Subcommand) (s : Surroundings) (arguments : List String) : Prop :=
  (Subcommand.asksHelp arguments = true ∧
    (run s (command.name :: arguments)).ending = .exit 0) ∨
  (run s (command.name :: arguments)).ending = .exit 1 ∨
  ((∃ c a, Attempts s arguments command c a .succeeded) ∧
    (run s (command.name :: arguments)).ending = .exit 0) ∨
  (∃ session, (run s (command.name :: arguments)).ending = .watching session) ∨
  ∃ c a, Attempts s arguments command c a .crashed

/-- Every run of `compile` is accounted for by its one build. -/
theorem accounted_compile (s : Surroundings) (arguments : List String) :
    Accounted .compile s arguments := by
  unfold Accounted
  rw [run_compile]
  cases hload : Config.load s.disk s.environment with
  | error cause => exact .inr (.inl rfl)
  | ok c =>
      dsimp only
      rw [ending_compile]
      cases hprepare : prepare .compile c s arguments with
      | error outcome =>
          rcases prepare_error hprepare with hexit | hhelp
          · exact .inr (.inl hexit)
          · exact .inl hhelp
      | ok p =>
          have hattempt := Attempts.compile hload hprepare
          dsimp only
          cases hverdict : p.verdict c with
          | succeeded => exact .inr (.inr (.inl ⟨⟨c, p.arguments, hverdict ▸ hattempt⟩, rfl⟩))
          | failed => exact .inr (.inl rfl)
          | crashed => exact .inr (.inr (.inr (.inr ⟨c, p.arguments, hverdict ▸ hattempt⟩)))

/-- Every run of `watch` is accounted for by its rounds. -/
theorem accounted_watch (s : Surroundings) (arguments : List String) :
    Accounted .watch s arguments := by
  unfold Accounted
  rw [run_watch]
  cases hload : Config.load s.disk s.environment with
  | error cause => exact .inr (.inl rfl)
  | ok c =>
      dsimp only
      rw [ending_watch]
      cases hprepare : prepare .watch c s arguments with
      | error outcome =>
          rcases prepare_error hprepare with hexit | hhelp
          · exact .inr (.inl hexit)
          · exact .inl hhelp
      | ok p =>
          dsimp only
          cases hfree : (p.session c s).obstacle? p.disk with
          | some reason => exact .inr (.inl rfl)
          | none =>
              have hattempt := Attempts.watch hload hprepare hfree .start
              dsimp only
              split
              next hcrashed =>
                exact .inr (.inr (.inr (.inr ⟨c, p.arguments, hcrashed ▸ hattempt⟩)))
              next => exact .inr (.inr (.inr (.inl ⟨_, rfl⟩)))

section Overlooked

variable {s : Surroundings} {arguments : List String} {command : Subcommand}

/-- A guarded command overlooks no flag in a build that gets as far as writing. -/
theorem Guarded.isOverlooked_eq_false (h : Guarded command s arguments) {c : Config}
    {a : Arguments} {verdict : WatchSession.Verdict}
    (hattempt : Attempts s arguments command c a verdict) (hwrites : verdict ≠ .failed) :
    a.isOverlooked = false := by
  cases verdict with
  | succeeded => exact hattempt.validate_iff.mp (h.allowed c a hattempt)
  | crashed => exact absurd hattempt (h.goesOn c a)
  | failed => exact absurd rfl hwrites

/-- If no build that comes to a document overlooks a setting, settings are checked. -/
theorem Accounted.guarded (hrun : Accounted command s arguments)
    (h : ∀ c a verdict, Attempts s arguments command c a verdict → verdict ≠ .failed →
      a.isOverlooked = false) : Guarded command s arguments := by
  have hgoes : ∀ c a, ¬ Attempts s arguments command c a .crashed := by
    intro c a hattempt
    have htrue := hattempt.isOverlooked_of_crashed rfl
    rw [h c a .crashed hattempt (by simp)] at htrue
    cases htrue
  refine ⟨?_, hgoes, fun c a hattempt => hattempt.validate_iff.mpr (h c a _ hattempt (by simp)), ?_⟩
  · intro message hcrashed
    unfold Accounted at hrun
    rw [hcrashed] at hrun
    obtain ⟨-, hexit⟩ | hexit | ⟨-, hexit⟩ | ⟨session, hexit⟩ | ⟨c, a, hattempt⟩ := hrun
    · cases hexit
    · cases hexit
    · cases hexit
    · cases hexit
    · exact hgoes c a hattempt
  · obtain ⟨hhelp, -⟩ | hexit | ⟨hwritten, -⟩ | hwatching | ⟨c, a, hattempt⟩ := hrun
    · exact .inl hhelp
    · exact .inr (.inl ⟨hexit, fun c a hattempt => hattempt.ending_ne_exit_one rfl hexit⟩)
    · exact .inr (.inr (.inl hwritten))
    · exact .inr (.inr (.inr hwatching))
    · exact absurd hattempt (hgoes c a)

end Overlooked

/-- Settings of a file and of the environment are always checked. Those of a command line are
checked exactly if no build that gets as far as writing its document has a negative number of
workers, an indentation out of bounds or a format without a name among its flags. -/
theorem guarded_iff (s : Surroundings) (arguments : List String) :
    (∀ c, Config.load s.disk s.environment = .ok c → c.validate = .ok ()) ∧
    (Guarded .compile s arguments ↔ ∀ c a verdict, Attempts s arguments .compile c a verdict →
      verdict ≠ .failed → a.isOverlooked = false) ∧
    (Guarded .watch s arguments ↔ ∀ c a verdict, Attempts s arguments .watch c a verdict →
      verdict ≠ .failed → a.isOverlooked = false) :=
  ⟨fun _ => Config.validate_of_load,
    ⟨fun h _ _ _ => h.isOverlooked_eq_false, (accounted_compile s arguments).guarded⟩,
    ⟨fun h _ _ _ => h.isOverlooked_eq_false, (accounted_watch s arguments).guarded⟩⟩

/-- The flags and the verdict of the build of `compile`. -/
def compileAttempt? (s : Surroundings) (arguments : List String) :
    Option (Arguments × WatchSession.Verdict) :=
  match Config.load s.disk s.environment with
  | .error _ => none
  | .ok c =>
    match prepare .compile c s arguments with
    | .error _ => none
    | .ok p => some (p.arguments, p.verdict c)

/-- The build of `compile` is one of the builds that its line leads to. -/
theorem exists_attempts_of_compileAttempt? {s : Surroundings} {arguments : List String}
    {a : Arguments} {verdict : WatchSession.Verdict}
    (h : compileAttempt? s arguments = some (a, verdict)) :
    ∃ c, Attempts s arguments .compile c a verdict := by
  unfold compileAttempt? at h
  split at h
  next => cases h
  next c hload =>
    split at h
    next => cases h
    next p hprepare =>
      cases h
      exact ⟨c, .compile hload hprepare⟩

/-- A directory with an empty manifest. -/
def emptyManifest : Surroundings :=
  { disk := { cwd := ["work"]
              files := [(["work", "m.json"],
                .text "\x7b\"version\":\"1.0.0\",\"entities\":[]\x7d")] } }

/-- A negative indentation crashes, and one that is too deep is written. -/
theorem not_guarded_emptyManifest :
    ¬ Guarded .compile emptyManifest ["m.json", "-no-cache", "-indent", "-1"] ∧
    ¬ Guarded .compile emptyManifest ["m.json", "-no-cache", "-indent", "9"] := by
  have hnegative : compileAttempt? emptyManifest ["m.json", "-no-cache", "-indent", "-1"] =
      some ({ settings := [("no-cache", .bool true), ("indent", .int (-1))],
              positional := ["m.json"] }, .crashed) := by decide +kernel
  have hdeep : compileAttempt? emptyManifest ["m.json", "-no-cache", "-indent", "9"] =
      some ({ settings := [("no-cache", .bool true), ("indent", .int 9)],
              positional := ["m.json"] }, .succeeded) := by decide +kernel
  constructor
  · intro hguarded
    obtain ⟨c, hattempt⟩ := exists_attempts_of_compileAttempt? hnegative
    exact hguarded.goesOn c _ hattempt
  · intro hguarded
    obtain ⟨c, hattempt⟩ := exists_attempts_of_compileAttempt? hdeep
    have hoverlooked := hguarded.isOverlooked_eq_false hattempt (by simp)
    revert hoverlooked
    decide +kernel

end Command

end StoredProc
