import StoredProc.Command.Document
import StoredProc.Text.Separator

/-!
# Watch sessions

A session builds one manifest again and again, with one builder, and writes its
program each time. Errors are reported and do not end the session.
-/

namespace StoredProc

structure WatchSession where
  builder : Builder
  /-- The manifest, as it was named. -/
  path : String
  destination : Destination := {}
  colors : Bool := false
  deriving Inhabited

namespace WatchSession

/-- How a build of a session ends. -/
inductive Verdict where
  | succeeded
  | failed
  | crashed
  deriving DecidableEq, Inhabited, Repr

/-- A build of a session, with the session and the disk after it. -/
structure Round where
  verdict : Verdict
  session : WatchSession
  disk : Disk
  output : Output

/-- The place of the manifest. -/
def place (s : WatchSession) (d : Disk) : List String := Path.resolve d.cwd s.path

/-- Why the directory of the manifest cannot be watched. -/
def obstacle? (s : WatchSession) (d : Disk) : Option Disk.Reason :=
  match d.locate (Path.ofNames (s.place d).dropLast) with
  | .error reason => some reason
  | .ok directory =>
    if d.isDirectory directory || d.isFile directory then none else some .missing

/-- Build and write the program. -/
def rebuild (s : WatchSession) (d : Disk) : Round :=
  let (built, builder, log) := s.builder.build d (Path.ofNames (s.place d))
  let session := { s with builder }
  let d := builder.close d
  match built with
  | .error cause =>
    { verdict := .failed, session, disk := d, output := { err := log ++ cause.lines s.colors } }
  | .ok result =>
    match s.destination.write d result.document with
    | .ok (d, out) =>
      { verdict := .succeeded
        session
        disk := d
        output := { out, err := log ++ successLine s.colors (s.path ++ " compiled") } }
    | .error cause =>
      if cause.isFatal then { verdict := .crashed, session, disk := d, output := { err := log } }
      else
        { verdict := .failed
          session
          disk := d
          output := { err := log ++ (Diagnostic.plain cause.message).line s.colors } }

/-- Build again after a change. A line marks the start. -/
def next (s : WatchSession) (d : Disk) : Round :=
  let round := s.rebuild d
  { round with output := { err := Text.separator (Path.base s.path) } ++ round.output }

end WatchSession

end StoredProc
