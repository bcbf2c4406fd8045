import Permalink.Composition
import Permalink.History
import Permalink.Resolution

/-! Navigation: going to a place given by its state, its url or both. -/

namespace Permalink

inductive Destination where
  | state (s : State)
  | url (text : String)
  /-- A pair that belongs together. -/
  | both (s : State) (text : String)

def Destination.resolve (schema : Schema) (host : Host) : Destination → State × String
  | .state s => (s, s.toUrl schema)
  | .url text => (State.ofUrl schema host text, text)
  | .both s text => (s, text)

inductive NavigationMode where
  | push
  | replace
  deriving DecidableEq, Repr

namespace History

def write (h : History) (entry : HistoryEntry) : NavigationMode → History
  | .push => h.push entry
  | .replace => h.replace entry

/-- The state navigated to. Going to the url that is shown already leaves the history as it is. -/
def navigate (schema : Schema) (host : Host) (mode : NavigationMode) (destination : Destination)
    (title : String) (h : History) : State × History :=
  let (state, url) := destination.resolve schema host
  if url = h.current.url then (state, h) else (state, h.write { url, title, state } mode)

def currentState (schema : Schema) (host : Host) (h : History) : State :=
  State.ofUrl schema host h.current.url

end History

end Permalink
