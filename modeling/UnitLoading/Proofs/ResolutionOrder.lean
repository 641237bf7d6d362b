/-
The order of a resolution in closed form.

A resolution is a recursion along the delegation path: each loader looks at what it has, then asks the rest
of the path, and only then turns to its own search locations. So the look-ups run from the loader towards
its eldest ancestor and the locations are tried on the way back, and `verdict` says this without recursion:
it is one list of places, the first of which decides. The path splits into its loaders (`lineage`) and the
foreign loader that they end at (`foreignEnd`), and the two forms agree by induction on the path
(`finding_none_eq`).
-/
import UnitLoading.Proofs.Perform

namespace UnitLoading

variable {s : System} {l : Loader} {scope : ResolutionScope}

-- ================================================================ the parts of a path

/-- The loaders that a path starts with, nearest first, up to the first foreign one. -/
def lineage : List Stop → List Loader
  | .dynamic id c h :: rest => ⟨id, c, h, rest⟩ :: lineage rest
  | _ => []

/-- The foreign loader that those loaders end at. -/
def foreignEnd : List Stop → Option ForeignLoader
  | [] => none
  | .dynamic .. :: rest => foreignEnd rest
  | .foreign id units raises :: via => some ⟨id, units, raises, via⟩

theorem path_suffix_of_mem_lineage {path : List Stop} (hl : l ∈ lineage path) : l.path <:+ path := by
  induction path with
  | nil => exact absurd hl List.not_mem_nil
  | cons stop rest ih =>
    cases stop with
    | foreign => exact absurd hl List.not_mem_nil
    | dynamic id c h =>
      rcases List.mem_cons.1 hl with rfl | hl
      · exact List.suffix_rfl
      · exact (ih hl).trans (List.suffix_cons _ rest)

theorem path_suffix_of_foreignEnd {path : List Stop} {f : ForeignLoader} (hf : foreignEnd path = some f) :
    f.path <:+ path := by
  induction path with
  | nil => exact absurd hf (by simp [foreignEnd])
  | cons stop rest ih =>
    cases stop with
    | foreign id units raises =>
      rw [← Option.some.inj hf]
      exact List.suffix_rfl
    | dynamic id c h => exact (ih hf).trans (List.suffix_cons _ rest)

-- ================================================================ findings in a row

namespace Finding

theorem orElse_assoc (f g k : Finding) : (f.orElse g).orElse k = f.orElse (g.orElse k) := by
  cases f <;> rfl

theorem nothing_orElse (f : Finding) : nothing.orElse f = f := rfl

theorem orElse_nothing (f : Finding) : f.orElse nothing = f := by
  cases f <;> rfl

theorem ofLookup_or (a b : Option UnitId) : ofLookup (a.or b) = (ofLookup a).orElse (ofLookup b) := by
  cases a <;> rfl

end Finding

namespace System

/-- The unit of a name that a loader has at hand: the one in its context, or else its host's. -/
def atLoader? (s : System) (l : Loader) (name : String) : Option UnitId :=
  (s.resident? l.context name).or (s.loaded? l.host l.context name)

/-- What a foreign loader answers: it breaks off, gives a unit of its own, or gives what the loader that it
resolves through finds with the empty scope. -/
def foreignAnswer (s : System) (name : String) : Option ForeignLoader → Finding
  | none => .nothing
  | some f =>
    if name ∈ f.raises then .failure .raised
    else (Finding.ofLookup (f.units.get? name)).orElse (s.finding name (some .empty) f.via).forgiven

/-- Of some loaders, the farthest one whose search locations have a definition, with that definition. -/
def supplier? (s : System) (name : String) (loaders : List Loader) : Option (Loader × Definition) :=
  loaders.reverse.findSome? fun l =>
    ((s.host l.host).locate name (s.locationsOf l.id)).map fun d => (l, d)

/-- What defining in that loader is going to give. -/
def supplied (s : System) (name : String) (loaders : List Loader) : Finding :=
  match s.supplier? name loaders with
  | some (l, d) => s.defining l.context l.host d
  | none => .nothing

/-- What a resolution is going to give: the first of what the loader has at hand, what the chain of the
scope has, what the loaders behind it have at hand, what the foreign loader at the end answers, and what
the farthest loader with a definition makes of it. -/
def verdict (s : System) (l : Loader) (name : String) (scope : ResolutionScope) : Finding :=
  (Finding.ofLookup (s.atLoader? l name)).orElse <|
  (Finding.ofLookup (s.alongChain? scope name)).orElse <|
  (Finding.ofLookup ((lineage l.delegates).findSome? fun k => s.atLoader? k name)).orElse <|
  (s.foreignAnswer name (foreignEnd l.delegates)).orElse <|
  (s.supplied name (lineage l.path)).orElse <|
  .failure (.error (.notFound name l.context))

-- ================================================================ locations

/-- A definition never comes to nothing. -/
theorem defining_orElse (s : System) (c : ContextId) (h : HostId) (d : Definition) (g : Finding) :
    (s.defining c h d).orElse g = s.defining c h d := by
  unfold defining
  split
  · rfl
  · split
    · split <;> rfl
    · split <;> rfl

/-- A loader's own locations come after those of all loaders behind it. -/
theorem supplied_cons (s : System) (name : String) (l : Loader) (loaders : List Loader) :
    s.supplied name (l :: loaders)
      = (s.supplied name loaders).orElse (s.supply l.id l.context l.host name) := by
  unfold supplied supplier?
  rw [List.reverse_cons, List.findSome?_append]
  cases loaders.reverse.findSome? fun l =>
      ((s.host l.host).locate name (s.locationsOf l.id)).map fun d => (l, d) with
  | some found => exact (defining_orElse ..).symm
  | none =>
    rw [Option.none_or, List.findSome?_singleton, supply]
    cases (s.host l.host).locate name (s.locationsOf l.id) <;> rfl

-- ================================================================ the two forms

/-- Without a scope, a path gives what its loaders have at hand, nearest first, then what the foreign loader
answers, then what the locations give, farthest first. -/
theorem finding_none_eq (s : System) (name : String) (path : List Stop) :
    s.finding name none path
      = (Finding.ofLookup ((lineage path).findSome? fun k => s.atLoader? k name)).orElse
          ((s.foreignAnswer name (foreignEnd path)).orElse (s.supplied name (lineage path))) := by
  -- the places of the rest stand between what the first loader has at hand and its own locations
  induction path with
  | nil => rfl
  | cons stop rest ih =>
    cases stop with
    | foreign id units raises =>
      show s.foreignAnswer name (some ⟨id, units, raises, rest⟩)
        = Finding.nothing.orElse ((s.foreignAnswer name _).orElse .nothing)
      rw [Finding.nothing_orElse, Finding.orElse_nothing]
      rfl
    | dynamic id c h =>
      let l : Loader := ⟨id, c, h, rest⟩
      have hhere : (Finding.ofLookup ((lineage (.dynamic id c h :: rest)).findSome? fun k =>
          s.atLoader? k name))
          = (Finding.ofLookup (s.resident? c name)).orElse ((Finding.ofLookup (s.loaded? h c name)).orElse
              (Finding.ofLookup ((lineage rest).findSome? fun k => s.atLoader? k name))) := by
        rw [lineage, List.findSome?_cons, atLoader?]
        dsimp only
        cases s.resident? c name with
        | some u => rfl
        | none => cases s.loaded? h c name <;> rfl
      have hlast : s.supplied name (lineage (.dynamic id c h :: rest))
          = (s.supplied name (lineage rest)).orElse (s.supply id c h name) := supplied_cons s name l _
      rw [hhere, hlast, foreignEnd, finding, ih]
      simp only [Finding.orElse_assoc, Option.bind_none]
      rfl

/-- The recursion along the path and the list of places agree. -/
theorem resolving_eq (s : System) (l : Loader) (name : String) (scope : ResolutionScope) :
    s.resolving l name scope = s.verdict l name scope := by
  have hlast : s.supplied name (lineage l.path)
      = (s.supplied name (lineage l.delegates)).orElse (s.supply l.id l.context l.host name) :=
    supplied_cons s name l _
  rw [resolving, verdict, hlast, Loader.path, finding, finding_none_eq, atLoader?, Finding.ofLookup_or]
  simp only [Finding.orElse_assoc, Option.bind_some]

/-- What a foreign loader does not have of its own is what the loader that it resolves through makes of the
name with the empty scope, but for errors. -/
theorem foreignAnswer_via (s : System) (name : String) (f : ForeignLoader) (via : Loader)
    (hvia : f.via = via.path) (hraise : name ∉ f.raises) :
    s.foreignAnswer name (some f)
      = (Finding.ofLookup (f.units.get? name)).orElse (s.verdict via name .empty).forgiven := by
  rw [foreignAnswer, if_neg hraise, hvia, ← resolving_eq, resolving]
  cases s.finding name (some .empty) via.path with
  | failure e => cases e <;> rfl
  | _ => rfl

-- ================================================================ the order

/-- A resolution returns what the first place of the list gives. In it, what a definition is going to give
is just what that loader's own definition results in, and what a foreign loader answers is what asking it
results in. -/
theorem resolution_order (hr : s.Reachable Command.Public) (hl : s.Holds l.path)
    (hscope : s.KnowsScope scope) (name : String) :
    Outcome s (s.verdict l name scope) (s.perform (.resolve l name scope)).1
      (s.perform (.resolve l name scope)).2 ∧
    (∀ k ∈ lineage l.path, ∀ d : Definition, Outcome s (s.defining k.context k.host d)
      (s.perform (.define k d)).1 (s.perform (.define k d)).2) ∧
    ∀ f ∈ foreignEnd l.path, Outcome s (s.foreignAnswer name (some f))
      (.ofSearch (resolveAlong name none f.path s).1) (resolveAlong name none f.path s).2 := by
  have hs := hr.consistent
  refine ⟨?_, fun k hk d => ?_, fun f hf => ?_⟩
  · rw [← resolving_eq]
    exact resolve_outcome hs hl hscope name
  · have hk : s.Holds k.path := hl.suffix (path_suffix_of_mem_lineage hk)
    obtain ⟨hc, hh⟩ := Holds.stop hk hs
    exact defineIn_outcome hs hc hh d
  · have hf : s.Holds f.path := hl.suffix (path_suffix_of_foreignEnd hf)
    have hanswer : s.finding name none f.path = s.foreignAnswer name (some f) := rfl
    rw [← hanswer]
    exact resolveAlong_outcome hs (usable_of_holds hs hf) name none fun _ hx => absurd hx (by simp)

end System

/-- A foreign loader that owns a unit. -/
def ForeignLoader.owner : ForeignLoader := ⟨⟨1⟩, .ofList [("f", ⟨1⟩)], [], []⟩

/-- A loader under the foreign one. -/
def Loader.inner : Loader := ⟨⟨2⟩, ⟨1⟩, ⟨0⟩, ForeignLoader.owner.path⟩

/-- A loader under that one, over a context of its own. -/
def Loader.outer : Loader := ⟨⟨3⟩, ⟨2⟩, ⟨0⟩, Loader.inner.path⟩

/-- A loader over the context of an override. -/
def Loader.beside : Loader := ⟨⟨4⟩, ⟨3⟩, ⟨0⟩, []⟩

namespace System

/-- A program in which a unit lives in the root, another one in the context of the override, and a definition is
published at the location of the loader in the middle. -/
def layering : List Command :=
  [.newHost .none, .rootLoader ⟨0⟩, .define .first ⟨"a", [1], none⟩, .newForeign [("f", ⟨1⟩)] [] none,
    .createLoader (.foreign .owner) ["lib"] ⟨0⟩, .isolatedLoader .inner, .publish ⟨0⟩ "lib" ⟨"s", [2], none⟩,
    .newContext .root, .loaderInContext none ⟨3⟩ [] ⟨0⟩, .define .beside ⟨"q", [3], none⟩]

/-- The state that the program leads to. -/
def layered : System := initial.after layering

theorem reachable_layered : layered.Reachable Command.Public := by
  refine ⟨layering, .cons trivial trivial (.cons trivial rfl (.cons trivial holds_first (.cons trivial ⟨?_, nofun⟩
    (.cons trivial ⟨?_, rfl⟩ (.cons trivial ?_ (.cons trivial rfl (.cons trivial rfl (.cons trivial ⟨nofun, rfl, rfl⟩
      (.cons trivial ?_ .start)))))))))⟩
  · decide
  all_goals exact ⟨_, List.mem_cons_self, List.suffix_rfl⟩

theorem layered_holds_outer : layered.Holds Loader.outer.path :=
  ⟨_, List.mem_cons_of_mem _ List.mem_cons_self, List.suffix_rfl⟩

/-- Through two loaders with a foreign one behind them, and with an override: the chain of the scope comes
first, then the foreign loader, and then the location of the loader in the middle, whose context gets the new
unit. A name that nobody knows is not found. -/
theorem resolution_order_layered :
    let answer := fun name => (layered.perform (.resolve .outer name (.withActive ⟨3⟩))).1
    answer "q" = .unit ⟨2⟩ ∧ answer "a" = .unit ⟨1⟩ ∧ answer "f" = .unit ⟨1⟩ ∧
      (∃ t : System, answer "s" = .unit t.nextUnit ∧
        (layered.perform (.resolve .outer "s" (.withActive ⟨3⟩))).2 = t.installed ⟨1⟩ ⟨0⟩ ⟨"s", [2], none⟩) ∧
      answer "z" = .failed (.error (.notFound "z" ⟨2⟩)) := by
  intro answer
  have hscope : layered.KnowsScope (.withActive ⟨3⟩) := knowsScope_withActive rfl
  have horder := fun name => (resolution_order reachable_layered layered_holds_outer hscope name).1
  have hoverride : Outcome layered (.ofLookup (some ⟨2⟩)) _ _ := horder "q"
  have hroot : Outcome layered (.ofLookup (some ⟨1⟩)) _ _ := horder "a"
  have hforeign : Outcome layered (.ofLookup (some ⟨1⟩)) _ _ := horder "f"
  have hlocation : Outcome layered (.fresh ⟨1⟩ ⟨0⟩ ⟨"s", [2], none⟩) _ _ := horder "s"
  have hnobody : Outcome layered (.failure (.error (.notFound "z" ⟨2⟩))) _ _ := horder "z"
  exact ⟨hoverride.of_lookup, hroot.of_lookup, hforeign.of_lookup, hlocation.of_fresh, hnobody.of_failure⟩

end System

end UnitLoading
