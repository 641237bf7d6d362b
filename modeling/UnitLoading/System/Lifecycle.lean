/-
Making contexts, hosts and loaders, the constants and locations of a loader, and closing.

A loader made under another one shares the context of that one unless it is to be isolated; a loader made
under a foreign one gets a fresh context under the root. Closing empties the loader's context for good and
has the loader's host forget it; the root context is never closed.
-/
import UnitLoading.Config.File
import UnitLoading.System.Resolve

namespace UnitLoading.System

-- ================================================================ contexts and hosts

/-- Makes an empty context below another one. -/
def newContext (s : System) (parent : ContextId) : ContextId × System :=
  let c : ContextId := ⟨s.contexts.size⟩
  (c, s.setContext c (.fresh (parent :: (s.context parent).ancestors)))

/-- Makes a host. -/
def newHost (s : System) (refusals : Refusals) : HostId × System :=
  let h : HostId := ⟨s.hosts.size⟩
  (h, s.setHost h (.new refusals))

/-- Makes a definition available at a location of a host. -/
def publish (s : System) (h : HostId) (location : String) (d : Definition) : System :=
  s.setHost h ((s.host h).publish location d)

/-- Has a host forget the units of a context. -/
def releaseHost (s : System) (h : HostId) (c : ContextId) : System :=
  s.setHost h ((s.host h).release c)

-- ================================================================ loaders

/-- Makes a loader and holds it. -/
def newLoader (s : System) (context : ContextId) (host : HostId) (delegates : List Stop)
    (locations : List String) : Loader × System :=
  let l : Loader := ⟨⟨s.loaderCount⟩, context, host, delegates⟩
  (l, { s with
        locations := s.locations.insert l.id locations
        loaderCount := s.loaderCount + 1 }.hold l.path)

/-- Makes a loader of the root context. -/
def rootLoader (s : System) (host : HostId) : Loader × System := s.newLoader .root host [] []

/-- The context of a loader under a parent: the parent's, or a fresh one under the root. -/
def contextUnder (s : System) : Parent → ContextId × System
  | .dynamic l => (l.context, s)
  | .foreign _ => s.newContext .root

/-- Makes a loader under a parent. -/
def createLoader (s : System) (parent : Parent) (locations : List String) (host : HostId) :
    Loader × System :=
  let (c, s) := s.contextUnder parent
  s.newLoader c host parent.path locations

/-- Makes a loader in a given context. -/
def loaderInContext (s : System) (parent : Option Parent) (context : ContextId)
    (locations : List String) (host : HostId) : Loader × System :=
  s.newLoader context host ((parent.map Parent.path).getD []) locations

/-- Makes a loader under another one, with the same context and host. -/
def childLoader (s : System) (l : Loader) : Loader × System := s.createLoader (.dynamic l) [] l.host

/-- Makes a loader under another one, with the same host and a context of its own. -/
def isolatedLoader (s : System) (l : Loader) : Loader × System :=
  let (c, s) := s.newContext l.context
  s.newLoader c l.host l.path []

/-- Makes a loader as a configuration says. -/
def configuredLoader (s : System) (config : LoaderConfig) (parent : Option Parent) (host : HostId) :
    Loader × System :=
  match parent with
  | none => s.newLoader .root host [] config.searchLocations
  | some (.dynamic l) =>
    if config.isolate then
      let (c, s) := s.newContext l.context
      s.newLoader c host l.path config.searchLocations
    else s.newLoader l.context host l.path config.searchLocations
  | some (.foreign f) =>
    let (c, s) := s.newContext .root
    s.newLoader c host f.path config.searchLocations

/-- Makes a loader as the configuration in a file says. -/
def loaderFromFile (s : System) (path : String) (file : FileState) (parent : Option Parent) (host : HostId) :
    Except LoadError Loader × System :=
  match LoaderConfig.load path file with
  | .error e => (.error (.config e), s)
  | .ok config =>
    let (l, s) := s.configuredLoader config parent host
    (.ok l, s)

/-- Gives a foreign loader a handle on a unit under a name, in the place of any earlier one. -/
def adopt (r : Table String UnitId × System) (name : String) (u : UnitId) : Table String UnitId × System :=
  let (units, s) := r
  let s := s.own u
  (units.insert name u, match units.get? name with
    | some old => s.disown old
    | none => s)

/-- Makes a foreign loader and holds it. It has a handle on each of the units that it is given under a
name; of two units for one name it keeps the later. -/
def newForeign (s : System) (units : List (String × UnitId)) (raises : List String) (via : Option Loader) :
    ForeignLoader × System :=
  let (units, s) := units.foldl (fun r e => adopt r e.1 e.2) (.empty, s)
  let f : ForeignLoader := ⟨⟨s.loaderCount⟩, units, raises, (via.map Loader.path).getD []⟩
  (f, { s with loaderCount := s.loaderCount + 1 }.hold f.path)

-- ================================================================ locations and constants

/-- Appends a search location to those of a loader. -/
def addLocation (s : System) (l : Loader) (location : String) : System :=
  { s with locations := s.locations.insert l.id (s.locationsOf l.id ++ [location]) }

/-- Stores the constant pool of a generation in the context of a loader. -/
def registerConstants (s : System) (l : Loader) (g : GenerationId) (values : List Constant) :
    Except LoadError Unit × System :=
  let x := s.context l.context
  if x.closed then (.error (.closed l.context), s)
  else (.ok (), s.setContext l.context { x with pools := x.pools.register g values })

/-- The constant pool of a generation in the context of a loader. -/
def constants? (s : System) (l : Loader) (g : GenerationId) : Option (List Constant) :=
  (s.context l.context).pools.get? g

/-- Counts of a context. -/
def stats (s : System) (c : ContextId) : ContextStats := (s.context c).stats c

-- ================================================================ closing

/-- Closes the context of a loader, unless it is the root or closed already. -/
def close (s : System) (l : Loader) : System :=
  let x := s.context l.context
  if l.context.isRoot || x.closed then s
  else (s.setContext l.context x.close).releaseHost l.host l.context

end UnitLoading.System
