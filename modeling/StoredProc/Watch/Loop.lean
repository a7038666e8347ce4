import StoredProc.Disk.Path

/-!
# The watch loop

Changes come in bursts. A change of the manifest starts a timer, and every change
before it has run down starts it anew. When it has run down it asks for a build;
one request is kept at most. A build takes the request, and while it goes on the
loop takes no news of files; the timer goes on. The directory of the manifest is
watched, so there is news of other files too.
-/

namespace StoredProc

/-- What can happen to a file. -/
inductive FileChange where
  | created
  | written
  | renamed
  | removed
  | permitted
  deriving DecidableEq, Inhabited, Repr

/-- Whether a change of the manifest calls for a build. -/
def FileChange.callsForBuild : FileChange → Bool
  | .created | .written | .renamed => true
  | .removed | .permitted => false

/-- News of a file. Several things can have happened to it at once. -/
structure FileEvent where
  path : String
  changes : List FileChange
  deriving DecidableEq, Inhabited, Repr

/-- Whether an event calls for a build of a manifest, whose path is cleaned. -/
def FileEvent.callsForBuild (event : FileEvent) (manifest : String) : Bool :=
  Path.clean event.path == manifest && event.changes.any FileChange.callsForBuild

/-- The timer of the loop. -/
inductive Timer where
  | idle
  | running
  | firing
  deriving DecidableEq, Inhabited, Repr

/-- What the loop is at. -/
inductive LoopPhase where
  | waiting
  | building
  | ended
  deriving DecidableEq, Inhabited, Repr

/-- The state of the loop. -/
structure WatchLoop where
  /-- The cleaned path of the manifest. -/
  manifest : String
  phase : LoopPhase := .waiting
  timer : Timer := .idle
  /-- Timers that had run down when a later change started the timer anew. -/
  late : Nat := 0
  requested : Bool := false
  deriving DecidableEq, Inhabited, Repr

/-- What happens to the loop. -/
inductive LoopEvent where
  /-- The loop takes news of a file. -/
  | file (event : FileEvent)
  /-- The loop takes news of a failure to watch, which is only logged. -/
  | failure
  /-- The timer has run down. -/
  | timeout
  /-- A timer that has run down asks for a build. -/
  | request
  /-- A timer that ran down before it was started anew asks for a build. -/
  | lateRequest
  /-- The loop takes the request and starts a build. -/
  | build
  /-- The build has ended. -/
  | built
  /-- The session is cancelled. -/
  | cancel
  deriving DecidableEq, Inhabited, Repr

namespace WatchLoop

/-- Start the timer anew. -/
def restart (s : WatchLoop) : WatchLoop :=
  { s with timer := .running, late := if s.timer = .firing then s.late + 1 else s.late }

/-- The state after an event, if the event can happen. -/
def step? (s : WatchLoop) : LoopEvent → Option WatchLoop
  | .file event =>
    if s.phase = .waiting then some (if event.callsForBuild s.manifest then s.restart else s)
    else none
  | .failure => if s.phase = .waiting then some s else none
  | .timeout => if s.timer = .running then some { s with timer := .firing } else none
  | .request =>
    if s.timer = .firing then some { s with timer := .idle, requested := true } else none
  | .lateRequest =>
    if s.late = 0 then none else some { s with late := s.late - 1, requested := true }
  | .build =>
    if s.phase = .waiting && s.requested then
      some { s with phase := .building, requested := false }
    else none
  | .built => if s.phase = .building then some { s with phase := .waiting } else none
  | .cancel => if s.phase = .waiting then some { s with phase := .ended } else none

/-- The state after events, if they can happen one after the other. -/
def run? (s : WatchLoop) (events : List LoopEvent) : Option WatchLoop :=
  events.foldlM step? s

end WatchLoop

end StoredProc
