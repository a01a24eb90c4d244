import Pagewright.FilePath

/-!
# Watching a file

A file is watched through the directory it stands in. Notifications about that directory are
narrowed down to those about the file, and a burst of events, as editors cause when they save, is
settled into one.

The last event about the file is what counts. An error does not replace the news that the file has
changed; it does replace the news that it was removed.
-/

namespace Pagewright.Watch

/-- What a notification says happened. -/
inductive Happening where
  | created
  | modified
  | removed
  /-- Anything else, such as reading. -/
  | other
  deriving DecidableEq, Repr

/-- A message from the file system. -/
inductive Notification where
  | happened (what : Happening) (paths : List FilePath)
  | failed (message : String)
  deriving DecidableEq, Repr

/-- What happened to the file. -/
inductive Event where
  | changed
  | removed
  | error (message : String)
  deriving DecidableEq, Repr

/-- The event that a notification is for the file of this name. -/
def classify (target : Option String) : Notification → Option Event
  | .failed message => some (.error message)
  | .happened what paths =>
    if paths.any (·.fileName? = target) then
      match what with
      | .created | .modified => some .changed
      | .removed => some .removed
      | .other => none
    else none

/-- The outcome of two events. -/
def settle (current next : Event) : Event :=
  match next with
  | .error _ => if current = .removed then next else current
  | _ => next

/-- The outcome of a burst after each of its events. -/
def states : List Event → List Event
  | [] => []
  | first :: rest => scan first rest
where
  scan (current : Event) : List Event → List Event
    | [] => [current]
    | next :: rest => current :: scan (settle current next) rest

/-- The outcome of a burst. -/
def outcome? : List Event → Option Event
  | [] => none
  | first :: rest => some (rest.foldl settle first)

end Pagewright.Watch
