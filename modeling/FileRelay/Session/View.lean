import FileRelay.Engine.Serve

/-!
# Looking at a run

Between two calls a run can be looked at: which requests are outstanding, how many ids
are in use, which files are open, and what has happened so far.
-/

namespace FileRelay.State

/-- The outstanding requests and where they stand, by ascending id. -/
def outstanding (s : State) : List (RequestId × Stage) :=
  (s.ledger.entries.map fun p => (p.id, p.stage)).mergeSort
    fun a b => a.1.val ≤ b.1.val

/-- How many ids of the caller's pool are in use. -/
def liveIds (s : State) : Nat := s.heldPool.liveCount

/-- Whether the mount is up, and its open files; nothing once the caller
holds it no more. -/
def mountView (s : State) : Option (Bool × List OpenFile) :=
  s.heldMount?.map fun m => (m.mounted, m.files.files)

/-- All that has happened so far, in order. -/
def events (s : State) : List Event := s.history.reverse

end FileRelay.State
