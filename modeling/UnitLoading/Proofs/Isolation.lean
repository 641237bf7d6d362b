/-
Isolation of look-ups: which contexts a unit can come from.

# Where a resolution can look

A resolution for a loader looks into the contexts of the loaders on its path, also of those that a foreign
loader resolves through, into the root, and into the overrides of the scope and what is above them. This is
its territory. What a foreign loader on the path has of its own comes from anywhere, and `HandedOver` says
when it is what the resolution gives: the walk along the path must get to that loader without finding
anything before.

# Why nothing else comes out

Entries of caches and hosts stand under the context and the name of their units (`Resident`), and a new
unit is defined in the context of a loader on the path under the name that was asked for. So every finding
lies in the territory or was handed over, by induction on the path (`finding_accounted`), and an outcome
gives what was found.
-/
import UnitLoading.Proofs.Closing

namespace UnitLoading

variable {s t : System} {c a : ContextId} {h : HostId} {name : String} {u : UnitId} {l : Loader}
  {scope : Option ResolutionScope} {path : List Stop} {f g : Finding} {answer : Answer}
  {P Q : ContextId → Prop} {cmd : Command}

/-- The context of a stop that is a loader. -/
def Stop.context? : Stop → Option ContextId
  | dynamic _ c _ => some c
  | foreign .. => none

/-- Whether a command resolves a name for a loader, be it for execution or not. -/
def Command.Resolves (l : Loader) (name : String) (scope : ResolutionScope) (cmd : Command) : Prop :=
  cmd = .resolve l name scope ∨ ∃ link, cmd = .load l name link scope

/-- Whether a command looks for a name, for a loader or along the chain of a scope. -/
def Command.LooksUp (l : Loader) (name : String) (scope : ResolutionScope) (cmd : Command) : Prop :=
  cmd = .findResident l name ∨ cmd = .resolveViaChain scope name ∨ cmd.Resolves l name scope

theorem Command.LooksUp.loaderLevel {scope : ResolutionScope} (hcmd : cmd.LooksUp l name scope) :
    cmd.LoaderLevel := by
  rcases hcmd with rfl | rfl | rfl | ⟨link, rfl⟩
  all_goals exact id

theorem Command.LooksUp.possible {scope : ResolutionScope} (hcmd : cmd.LooksUp l name scope)
    (hl : s.Holds l.path) (hscope : s.KnowsScope scope) : cmd.Possible s := by
  rcases hcmd with rfl | rfl | rfl | ⟨link, rfl⟩
  · exact hl
  · exact hscope
  · exact ⟨hl, hscope⟩
  · exact ⟨hl, hscope⟩

namespace System

-- ================================================================ the territory

/-- Whether a context is an override of a scope or above one. -/
def Above (s : System) (scope : ResolutionScope) (a : ContextId) : Prop :=
  ∃ o ∈ scope.overrides, a = o ∨ a ∈ (s.context o).ancestors

/-- Whether a resolution along a path with a scope may look into a context. -/
def Territory (s : System) (scope : Option ResolutionScope) (path : List Stop) (a : ContextId) : Prop :=
  a ∈ path.filterMap Stop.context? ∨ a = .root ∨ ∃ x ∈ scope, s.Above x a

theorem mem_chain_iff {scope : ResolutionScope} : a ∈ s.chain scope ↔ a = .root ∨ s.Above scope a := by
  rw [chain, ResolutionScope.mem_chain, ResolutionScope.walk, List.mem_append, List.mem_flatMap,
    List.mem_singleton, or_comm]
  simp only [List.mem_cons, Above]

/-- What the rest of a path may look into without a scope or with an empty one, the whole path may. -/
theorem Territory.cons {stop : Stop} {scope scope' : Option ResolutionScope}
    (hempty : ∀ x ∈ scope', x.overrides = []) (ha : s.Territory scope' path a) :
    s.Territory scope (stop :: path) a := by
  rcases ha with hpath | hroot | ⟨x, hx, o, ho, -⟩
  · left
    rw [List.filterMap_cons]
    split
    · exact hpath
    · exact List.mem_cons_of_mem _ hpath
  · exact .inr (.inl hroot)
  · rw [hempty x hx] at ho
    cases ho

-- ================================================================ what is handed over

/-- What a resolution gives is the unit that a foreign loader on the path has under the name: the loaders
before it have nothing, and neither has the scope. -/
inductive HandedOver (s : System) (name : String) (u : UnitId) : Option ResolutionScope → List Stop → Prop
  | owned {scope : Option ResolutionScope} {id : LoaderId} {units : Table String UnitId}
      {raises : List String} {via : List Stop} (hraise : name ∉ raises) (hu : units.get? name = some u) :
      HandedOver s name u scope (.foreign id units raises :: via)
  | via {scope : Option ResolutionScope} {id : LoaderId} {units : Table String UnitId}
      {raises : List String} {via : List Stop} (hraise : name ∉ raises) (hnone : units.get? name = none)
      (hvia : HandedOver s name u (some .empty) via) :
      HandedOver s name u scope (.foreign id units raises :: via)
  | behind {scope : Option ResolutionScope} {id : LoaderId} {c : ContextId} {h : HostId} {rest : List Stop}
      (habsent : s.resident? c name = none) (hnone : s.loaded? h c name = none)
      (hscope : (scope.bind fun scope => s.alongChain? scope name) = none)
      (hrest : HandedOver s name u none rest) : HandedOver s name u scope (.dynamic id c h :: rest)

theorem HandedOver.finding {scope : Option ResolutionScope} (hu : s.HandedOver name u scope path) :
    s.finding name scope path = .live u := by
  induction hu with
  | owned hraise hu =>
    rw [System.finding, if_neg hraise, hu]
    rfl
  | via hraise hnone _ ih =>
    rw [System.finding, if_neg hraise, hnone, ih]
    rfl
  | behind habsent hnone hscope _ ih =>
    rw [System.finding, habsent, hnone, hscope, ih]
    rfl

/-- Only what a foreign loader on the path has of its own is handed over. -/
theorem HandedOver.exists_foreign (hu : s.HandedOver name u scope path) :
    ∃ id units raises, .foreign id units raises ∈ path ∧ units.get? name = some u := by
  induction hu with
  | owned _ hu => exact ⟨_, _, _, List.mem_cons_self, hu⟩
  | via _ _ _ ih | behind _ _ _ _ ih =>
    obtain ⟨id, units, raises, hmem, hu⟩ := ih
    exact ⟨id, units, raises, List.mem_cons_of_mem _ hmem, hu⟩

-- ================================================================ findings in a territory

/-- Whether a unit has a name and belongs to a context of a certain kind. -/
def Belongs (s : System) (u : UnitId) (name : String) (P : ContextId → Prop) : Prop :=
  ∃ a, P a ∧ s.DefinedIn u a name

theorem Belongs.mono (hu : s.Belongs u name P) (hPQ : ∀ a, P a → Q a) : s.Belongs u name Q := by
  obtain ⟨a, ha, hdefined⟩ := hu
  exact ⟨a, hPQ a ha, hdefined⟩

/-- A finding is about a unit of the name in a context of a certain kind, or about none. -/
def Within (s : System) (name : String) (P : ContextId → Prop) : Finding → Prop
  | .live u => s.Belongs u name P
  | .fresh c _ d => P c ∧ d.name = name
  | .failure _ => True
  | .nothing => True

theorem Within.mono (hPQ : ∀ a, P a → Q a) (hf : s.Within name P f) : s.Within name Q f := by
  cases f with
  | live u => exact Belongs.mono hf hPQ
  | fresh c h d => exact ⟨hPQ c hf.1, hf.2⟩
  | failure | nothing => trivial

theorem Within.orElse (hf : s.Within name P f) (hg : s.Within name P g) : s.Within name P (f.orElse g) := by
  cases f with
  | nothing => exact hg
  | live | fresh | failure => exact hf

theorem Within.forgiven (hf : s.Within name P f) : s.Within name P f.forgiven := by
  cases f with
  | failure e => cases e <;> trivial
  | live | fresh => exact hf
  | nothing => trivial

theorem Resident.belongs_of_resident? (hr : s.Resident) (hu : s.resident? c name = some u) (hc : P c) :
    s.Belongs u name P :=
  ⟨c, hc, hr.entry_defined (UnitCache.live?_eq_some_iff.1 hu).1⟩

theorem Resident.belongs_of_loaded? (hr : s.Resident) (hu : s.loaded? h c name = some u) (hc : P c) :
    s.Belongs u name P :=
  ⟨c, hc, hr.slot_defined (Host.live?_eq_some_iff.1 hu).1⟩

theorem Resident.belongs_of_alongChain? {scope : ResolutionScope} (hr : s.Resident)
    (hu : s.alongChain? scope name = some u) (hP : ∀ a, a = .root ∨ s.Above scope a → P a) :
    s.Belongs u name P := by
  obtain ⟨a, ha, -, hu⟩ := exists_of_alongChain? hu
  exact hr.belongs_of_resident? hu (hP a (mem_chain_iff.1 ha))

/-- A loader supplies units of its own context under the name that was asked for. -/
theorem supply_within (hs : s.Consistent) (hr : s.Resident) (id : LoaderId) (h : HostId) (hc : P c) :
    s.Within name P (s.supply id c h name) := by
  unfold supply
  cases hd : (s.host h).locate name (s.locationsOf id) with
  | none => trivial
  | some d =>
    obtain ⟨location, -, hpublished⟩ := List.exists_of_findSome?_eq_some hd
    have hname : d.name = name := hs.published hpublished
    dsimp only
    unfold defining
    split
    · trivial
    · split
      · next u hu =>
        rw [hname] at hu
        split
        · exact hr.belongs_of_resident? hu hc
        · trivial
      · split
        · trivial
        · exact ⟨hc, hname⟩

/-- A finding is accounted for: it was handed over on the path, or it lies in the territory. -/
def Accounted (s : System) (name : String) (scope : Option ResolutionScope) (path : List Stop)
    (f : Finding) : Prop :=
  (∃ u, f = .live u ∧ s.HandedOver name u scope path) ∨ s.Within name (s.Territory scope path) f

theorem HandedOver.accounted (hu : s.HandedOver name u scope path) :
    s.Accounted name scope path (s.finding name scope path) :=
  .inl ⟨u, hu.finding, hu⟩

theorem Accounted.orElse (hf : s.Accounted name scope path f)
    (hg : s.Within name (s.Territory scope path) g) : s.Accounted name scope path (f.orElse g) := by
  rcases hf with ⟨u, rfl, hu⟩ | hf
  · exact .inl ⟨u, rfl, hu⟩
  · exact .inr (hf.orElse hg)

/-- What a path gives is accounted for. -/
theorem finding_accounted (hs : s.Consistent) (hr : s.Resident) (name : String)
    (scope : Option ResolutionScope) (path : List Stop) :
    s.Accounted name scope path (s.finding name scope path) := by
  induction path generalizing scope with
  | nil => exact .inr trivial
  | cons stop rest ih =>
    cases stop with
    | foreign id units raises =>
      by_cases hraise : name ∈ raises
      · right
        rw [finding, if_pos hraise]
        trivial
      cases hown : units.get? name with
      | some u => exact (HandedOver.owned hraise hown).accounted
      | none =>
        rcases ih (some .empty) with ⟨u, -, hover⟩ | hwithin
        · exact (HandedOver.via hraise hown hover).accounted
        · right
          rw [finding, if_neg hraise, hown]
          apply Within.forgiven
          apply hwithin.mono
          intro a ha
          refine ha.cons fun x hx => ?_
          rw [← Option.some.inj hx]
          rfl
    | dynamic id c h =>
      have hhere : s.Territory scope (.dynamic id c h :: rest) c := .inl List.mem_cons_self
      cases hresident : s.resident? c name with
      | some u =>
        right
        rw [finding, hresident]
        exact hr.belongs_of_resident? hresident hhere
      | none =>
      cases hloaded : s.loaded? h c name with
      | some u =>
        right
        rw [finding, hresident, hloaded]
        exact hr.belongs_of_loaded? hloaded hhere
      | none =>
      cases hchain : scope.bind fun scope => s.alongChain? scope name with
      | some u =>
        obtain ⟨x, hx, hfound⟩ := Option.bind_eq_some_iff.1 hchain
        right
        rw [finding, hresident, hloaded, hchain]
        apply hr.belongs_of_alongChain? hfound
        intro a ha
        rcases ha with hroot | habove
        · exact .inr (.inl hroot)
        · exact .inr (.inr ⟨x, hx, habove⟩)
      | none =>
        rcases ih none with ⟨u, -, hover⟩ | hwithin
        · exact (HandedOver.behind hresident hloaded hchain hover).accounted
        · right
          rw [finding, hresident, hloaded, hchain]
          show s.Within name _ ((s.finding name none rest).orElse (s.supply id c h name))
          apply Within.orElse
          · apply hwithin.mono
            intro a ha
            exact ha.cons fun x hx => by cases hx
          · exact supply_within hs hr id h hhere

-- ================================================================ resolutions and loads

theorem resolving_accounted (hs : s.Consistent) (hr : s.Resident) (l : Loader) (name : String)
    (scope : ResolutionScope) : s.Accounted name (some scope) l.path (s.resolving l name scope) :=
  (finding_accounted hs hr name (some scope) l.path).orElse trivial

theorem seeking_accounted (hs : s.Consistent) (hr : s.Resident) (l : Loader) (name : String)
    (scope : ResolutionScope) : s.Accounted name (some scope) l.path (s.seeking l name scope) := by
  unfold seeking
  cases hloaded : s.loaded? l.host l.context name with
  | some u => exact .inr (hr.belongs_of_loaded? hloaded (.inl List.mem_cons_self))
  | none => exact resolving_accounted hs hr l name scope

/-- A unit that a finding of the kind results in is of the kind. -/
theorem Outcome.belongs (ho : Outcome s f (.unit u) t) (hs : s.Consistent) (hf : s.Within name P f) :
    t.Belongs u name P := by
  cases ho with
  | live ht hu =>
    obtain ⟨a, ha, x, hx, hdefined⟩ := hf
    exact ⟨a, ha, x, (ht.sameLife hs).unit hx, hdefined⟩
  | @fresh c h d r ht ha =>
    refine ⟨c, hf.1, ?_⟩
    apply (definedIn_withNew (s := r) (some c) d).2
    rw [if_pos rfl]
    exact ⟨rfl, hf.2⟩

/-- The same where the finding is that of a look-up. -/
theorem Outcome.belongs_of_lookup {found : Option UnitId} (ho : Outcome s (.ofLookup found) answer t)
    (hs : s.Consistent) (hu : answer = .unit u) (hfound : found = some u → s.Belongs u name P) :
    t.Belongs u name P := by
  have he : found = some u := by
    rw [← Answer.ofLookup_eq_unit, ← ho.of_lookup]
    exact hu
  rw [he, hu] at ho
  exact ho.belongs hs (hfound he)

theorem Outcome.accounted (ho : Outcome s f (.unit u) t) (hs : s.Consistent)
    (hf : s.Accounted name scope path f) :
    s.HandedOver name u scope path ∨ t.Belongs u name (s.Territory scope path) := by
  rcases hf with ⟨v, rfl, hv⟩ | hf
  · left
    cases ho with
    | live => exact hv
  · exact .inr (ho.belongs hs hf)

theorem Belongs.link (hu : s.Belongs u name P) (h : HostId) (v : UnitId) :
    (s.link h v).2.Belongs u name P := by
  obtain ⟨a, ha, hdefined⟩ := hu
  exact ⟨a, ha, definedIn_link.2 hdefined⟩

/-- What a resolution or a load answers is accounted for. -/
theorem answer_accounted {scope : ResolutionScope} (hs : s.Consistent) (hr : s.Resident)
    (hl : s.Holds l.path) (hscope : s.KnowsScope scope) (hcmd : cmd.Resolves l name scope)
    (hu : (s.perform cmd).1 = .unit u) :
    s.HandedOver name u (some scope) l.path ∨
      (s.perform cmd).2.Belongs u name (s.Territory (some scope) l.path) := by
  rcases hcmd with rfl | ⟨link, rfl⟩
  · have ho := resolve_outcome hs hl hscope name
    have hu : Answer.ofResolution (s.resolve l name scope).1 = .unit u := hu
    rw [hu] at ho
    exact ho.accounted hs (resolving_accounted hs hr l name scope)
  · have ho := sought_outcome hs hl hscope name
    have hu : (s.load l name link scope).1 = .ok u := Answer.ofResolution_eq_unit.1 hu
    show _ ∨ (s.load l name link scope).2.Belongs u name _
    obtain ⟨hsought, hstate⟩ := load_ok hu
    rw [Answer.ofResolution_eq_unit.2 hsought] at ho
    rcases ho.accounted hs (seeking_accounted hs hr l name scope) with hover | hbelongs
    · exact .inl hover
    · right
      rcases hstate with hsame | hlinked
      · rw [hsame]
        exact hbelongs
      · rw [hlinked]
        exact hbelongs.link l.host u

-- ================================================================ where a unit was defined stays

theorem Change.defined (hc : Change s t) (hs : s.Consistent) (hu : s.DefinedIn u c name) :
    t.DefinedIn u c name := by
  rcases hc.thins hs with hthin | ⟨c, h, d, -, rfl⟩ | ⟨d, rfl⟩
  · exact hthin.defined hu
  · exact hu.withNew hs.toNumbered
  · exact hu.withNew hs.toNumbered

theorem Changes.defined (hc : Changes s t) (hs : s.Consistent) (hu : s.DefinedIn u c name) :
    t.DefinedIn u c name := by
  induction hc with
  | refl => exact hu
  | tail hrest hstep ih => exact hstep.defined (Changes.consistent hrest hs) ih

-- ================================================================ isolation

/-- Only units of its own context reside for a loader. -/
theorem findResident_belongs (hs : s.Consistent) (hr : s.Resident) (hl : s.Holds l.path)
    (hu : (s.perform (.findResident l name)).1 = .unit u) :
    (s.perform (.findResident l name)).2.Belongs u name fun a => a = l.context := by
  apply (findResident_outcome hs (Holds.stop hl hs).1 name).belongs_of_lookup hs hu
  intro hfound
  exact hr.belongs_of_resident? hfound rfl

/-- The chain of a scope gives units of the root, of the overrides and of what is above those. -/
theorem resolveViaChain_belongs {scope : ResolutionScope} (hs : s.Consistent) (hr : s.Resident)
    (hscope : s.KnowsScope scope) (hu : (s.perform (.resolveViaChain scope name)).1 = .unit u) :
    (s.perform (.resolveViaChain scope name)).2.Belongs u name fun a => a = .root ∨ s.Above scope a := by
  apply (resolveViaChain_outcome hs hscope name).belongs_of_lookup hs hu
  intro hfound
  exact hr.belongs_of_alongChain? hfound fun _ => id

theorem answer_of_handedOver {scope : ResolutionScope} (hs : s.Consistent) (hl : s.Holds l.path)
    (hscope : s.KnowsScope scope) (hu : s.HandedOver name u (some scope) l.path) :
    (s.perform (.resolve l name scope)).1 = .unit u := by
  have ho := resolve_outcome hs hl hscope name
  have hlive : s.resolving l name scope = .ofLookup (some u) := by
    rw [resolving, hu.finding]
    rfl
  rw [hlive] at ho
  exact ho.of_lookup

/-- What no foreign loader hands over comes from the territory, whichever look-up gives it. -/
theorem belongs_of_lookUp {scope : ResolutionScope} (hs : s.Consistent) (hr : s.Resident)
    (hl : s.Holds l.path) (hscope : s.KnowsScope scope) (hcmd : cmd.LooksUp l name scope)
    (hnot : ¬ s.HandedOver name u (some scope) l.path) (hu : (s.perform cmd).1 = .unit u) :
    (s.perform cmd).2.Belongs u name (s.Territory (some scope) l.path) := by
  rcases hcmd with rfl | rfl | hresolves
  · apply (findResident_belongs hs hr hl hu).mono
    rintro a rfl
    exact .inl List.mem_cons_self
  · apply (resolveViaChain_belongs hs hr hscope hu).mono
    intro a ha
    rcases ha with hroot | habove
    · exact .inr (.inl hroot)
    · exact .inr (.inr ⟨scope, rfl, habove⟩)
  · exact (answer_accounted hs hr hl hscope hresolves hu).resolve_left hnot

/-- Look-ups give units of the name that was asked for and of no context but those that they look into: the
one of the loader, or those of the scope, or the territory of the resolution. The exception is what a
foreign loader hands over. Units that were defined anywhere else are never given. -/
theorem lookups_isolated {scope : ResolutionScope} (hr : s.Reachable Command.LoaderLevel)
    (hl : s.Holds l.path) (hscope : s.KnowsScope scope) (name : String) :
    (∀ u, (s.perform (.findResident l name)).1 = .unit u →
      (s.perform (.findResident l name)).2.Belongs u name fun a => a = l.context) ∧
    (∀ u, (s.perform (.resolveViaChain scope name)).1 = .unit u →
      (s.perform (.resolveViaChain scope name)).2.Belongs u name fun a => a = .root ∨ s.Above scope a) ∧
    (∀ cmd u, cmd.Resolves l name scope → (s.perform cmd).1 = .unit u →
      s.HandedOver name u (some scope) l.path ∨
        (s.perform cmd).2.Belongs u name (s.Territory (some scope) l.path)) ∧
    (∀ u, s.HandedOver name u (some scope) l.path → (s.perform (.resolve l name scope)).1 = .unit u ∧
      ∃ id units raises, .foreign id units raises ∈ l.path ∧ units.get? name = some u) ∧
    ∀ cmd u a m, cmd.LooksUp l name scope → s.DefinedIn u a m → ¬ s.Territory (some scope) l.path a →
      ¬ s.HandedOver name u (some scope) l.path → (s.perform cmd).1 ≠ .unit u := by
  have hs := hr.consistent
  have hres := hr.resident
  refine ⟨fun u hu => findResident_belongs hs hres hl hu,
    fun u hu => resolveViaChain_belongs hs hres hscope hu,
    fun cmd u hcmd hu => answer_accounted hs hres hl hscope hcmd hu,
    fun u hu => ⟨answer_of_handedOver hs hl hscope hu, hu.exists_foreign⟩, ?_⟩
  intro cmd u a m hcmd hdefined houtside hnot hu
  obtain ⟨b, hb, hgiven⟩ := belongs_of_lookUp hs hres hl hscope hcmd hnot hu
  -- a unit stays where it was defined
  have hlater : (s.perform cmd).2.DefinedIn u a m :=
    (perform_changes hs hcmd.loaderLevel (hcmd.possible hl hscope)).defined hs hdefined
  apply houtside
  rw [(hlater.unique hgiven).1]
  exact hb

theorem branched_holds_first : branched.Holds Loader.first.path :=
  ⟨_, List.mem_cons_of_mem _ List.mem_cons_self, List.suffix_rfl⟩

/-- The unit of the inner loader belongs to its context, and the loader above it never gets it. -/
theorem lookups_isolated_branched :
    (branched.perform (.findResident .nested "b")).1 = .unit ⟨2⟩ ∧
      ((branched.perform (.findResident .nested "b")).2.Belongs ⟨2⟩ "b" fun a => a = ⟨1⟩) ∧
      (branched.perform (.resolve .first "b" .empty)).1 ≠ .unit ⟨2⟩ := by
  have hscope : branched.KnowsScope .empty := fun _ hc => absurd hc List.not_mem_nil
  have hfound : (branched.perform (.findResident .nested "b")).1 = .unit ⟨2⟩ := rfl
  obtain ⟨hfind, -⟩ := lookups_isolated reachable_branched branched_holds_nested hscope "b"
  obtain ⟨-, -, -, -, houtside⟩ := lookups_isolated reachable_branched branched_holds_first hscope "b"
  refine ⟨hfound, hfind _ hfound, ?_⟩
  apply houtside _ _ ⟨1⟩ "b" (.inr (.inr (.inl rfl))) ⟨_, rfl, rfl, rfl⟩
  · rintro (hpath | hroot | ⟨x, hx, o, ho, -⟩)
    · exact absurd hpath (by decide)
    · exact absurd hroot (by decide)
    · rw [← Option.some.inj hx] at ho
      exact absurd ho List.not_mem_nil
  · rintro (_ | _ | ⟨-, -, -, hrest⟩)
    cases hrest

/-- The exception is real: a foreign loader hands a unit over under any name that it gives it. -/
example :
    let (foreign, made) := branched.newForeign [("x", ⟨2⟩)] [] none
    let (under, ready) := made.createLoader (.foreign foreign) [] ⟨0⟩
    (ready.perform (.resolve under "x" .empty)).1 = .unit ⟨2⟩ := rfl

end System

end UnitLoading
