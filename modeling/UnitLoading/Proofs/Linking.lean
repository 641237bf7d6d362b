/-
Linking: which commands raise flags and count links, and what a load comes to.

A unit's flag is raised, and a link counted, in one way only, if nobody raises the flag by hand: a host is told
to link the unit, or the unit was found by a load that wants it linked, and it was not linked before and the
host does not refuse its name. Then this one flag goes up and this one host counts one link (`LinksOne`). All
other commands, and a link that is refused or not needed, leave every flag and every count of links as they
were (`KeepsLinks`). So a command does nothing of this or exactly one step of it (`perform_links`).

A load does what the search that it starts from does, and then has its own host link the unit
(`load_of_found`). The search itself never fails for a link (`sought_ne_linkFailed`), so a load that fails for
one has found a unit that was not linked (`load_linkFailed`). It leaves that unit as it was, and the next load
decides anew (`load_links_found`).
-/
import UnitLoading.Proofs.Confinement
import UnitLoading.Proofs.FirstUse

namespace UnitLoading

variable {s t r : System} {c : ContextId} {h k : HostId} {name m reason : String} {u v : UnitId}
  {unit : CompiledUnit} {d : Definition} {f : Finding} {answer : Answer} {cmd : Command} {l : Loader}
  {scope : ResolutionScope} {path : List Stop}

namespace Command

/-- The commands of runs in which nobody raises a flag by hand or puts a unit into the table of a host. -/
def Counted (cmd : Command) : Prop := cmd.LoaderLevel ∧ ∀ u, cmd ≠ .markLinked u

/-- The host that a command may have link a unit. -/
def linker? : Command → Option HostId
  | link h _ => some h
  | load l .. => some l.host
  | _ => none

end Command

namespace System

/-- Whether a command has a host link a unit: it is the host of the command, and the flag of the unit goes
up. -/
def Links (s : System) (cmd : Command) (h : HostId) (u : UnitId) : Prop :=
  cmd.linker? = some h ∧ s.isLinked u = false ∧ (s.perform cmd).2.isLinked u = true

-- ================================================================ nothing or one flag

/-- No flag was raised and no link counted. -/
structure KeepsLinks (s t : System) : Prop where
  isLinked (u : UnitId) : t.isLinked u = s.isLinked u
  links (h : HostId) : (t.host h).links = (s.host h).links

/-- A flag that was down was raised, and the host counted that. -/
structure LinksOne (h : HostId) (u : UnitId) (s t : System) : Prop where
  before : s.isLinked u = false
  isLinked (v : UnitId) : t.isLinked v = true ↔ v = u ∨ s.isLinked v = true
  links (k : HostId) : (t.host k).links = if k = h then (s.host k).links + 1 else (s.host k).links

namespace KeepsLinks

theorem refl (s : System) : s.KeepsLinks s := ⟨fun _ => rfl, fun _ => rfl⟩

theorem trans (hst : s.KeepsLinks t) (htr : t.KeepsLinks r) : s.KeepsLinks r :=
  ⟨fun u => (htr.isLinked u).trans (hst.isLinked u), fun h => (htr.links h).trans (hst.links h)⟩

theorem of_eq (hu : t.units = s.units) (hh : t.hosts = s.hosts) : s.KeepsLinks t :=
  ⟨fun u => by rw [System.isLinked, System.isLinked, hu], fun h => by rw [host, host, hh]⟩

theorem setHost {y : Host} (hlinks : y.links = (s.host h).links) : s.KeepsLinks (s.setHost h y) :=
  ⟨fun _ => rfl, host_setHost_congr hlinks⟩

theorem linksOne (hst : s.KeepsLinks t) (htr : LinksOne h u t r) : LinksOne h u s r where
  before := (hst.isLinked u).symm.trans htr.before
  isLinked v := by rw [htr.isLinked, hst.isLinked]
  links k := by rw [htr.links, hst.links]

theorem release (s : System) (u : UnitId) : s.KeepsLinks (s.release u) := by
  rw [release_eq]
  exact .of_eq rfl rfl

theorem disown (s : System) (u : UnitId) : s.KeepsLinks (s.disown u) := by
  rw [disown_eq]
  exact .of_eq rfl rfl

theorem configuredLoader (s : System) (config : LoaderConfig) (parent : Option Parent) (h : HostId) :
    s.KeepsLinks (s.configuredLoader config parent h).2 := by
  unfold System.configuredLoader
  split
  · exact .of_eq rfl rfl
  · split <;> exact .of_eq rfl rfl
  · exact .of_eq rfl rfl

/-- A host that was not made yet has counted as many links as a new one: none. -/
theorem newHost (hn : s.Numbered) (refusals : Refusals) : s.KeepsLinks (s.newHost refusals).2 := by
  apply KeepsLinks.setHost
  rw [System.host, get?_hosts_size hn]
  rfl

end KeepsLinks

theorem Outcome.keepsLinks (ho : Outcome s f answer t) (hs : s.Consistent) : s.KeepsLinks t := by
  refine ⟨ho.isLinked hs, fun k => ?_⟩
  cases ho with
  | @fresh c h d r ht ha =>
    have hhost : ((r.installed c h d).host k).links = (r.host k).links := by
      refine host_setHost_congr (f := Host.links) ?_ k
      rfl
    exact hhost.trans ((ht.sameLife hs).links k)
  | live ht | failure ht | nothing ht => exact (ht.sameLife hs).links k

-- ================================================================ linking a unit

theorem isLinked_of_get? (hx : s.units.get? u = some unit) : s.isLinked u = unit.linked := by
  rw [isLinked, hx]
  rfl

theorem isLinked_markLinked (hx : s.units.get? u = some unit) (v : UnitId) :
    (s.markLinked u).2.isLinked v = true ↔ v = u ∨ s.isLinked v = true := by
  have hunits : (s.markLinked u).2.units = s.units.insert u unit.markLinked := by
    rw [System.markLinked, hx]
  rw [isLinked, hunits, Table.get?_insert]
  by_cases hv : v = u
  · rw [if_pos hv]
    simp [hv, CompiledUnit.markLinked]
  · rw [if_neg hv, or_iff_right hv]
    rfl

theorem host_markLinked (s : System) (u : UnitId) (k : HostId) : (s.markLinked u).2.host k = s.host k := by
  unfold System.markLinked
  split <;> rfl

/-- A unit that is linked already is linked again without anything being counted. -/
theorem link_again (hx : s.units.get? u = some unit) (hlinked : unit.linked = true)
    (hagreed : (s.host h).refusals.unlinkable.get? unit.name = none) : s.KeepsLinks (s.link h u).2 := by
  have hflag : s.isLinked u = true := (isLinked_of_get? hx).trans hlinked
  rw [link_eq hx, hagreed, hlinked]
  refine ⟨fun v => ?_, fun k => ?_⟩
  · have hraised := isLinked_markLinked (s := s.setHost h (s.host h)) hx v
    rw [Bool.eq_iff_iff]
    refine hraised.trans (or_iff_right_of_imp fun hv => ?_)
    rw [hv]
    exact hflag
  · rw [host_markLinked]
    exact host_setHost_congr (f := Host.links) rfl k

/-- A host that does not refuse a unit raises its flag, if that was down, and counts it. -/
theorem link_first (hx : s.units.get? u = some unit) (hdown : unit.linked = false)
    (hagreed : (s.host h).refusals.unlinkable.get? unit.name = none) : LinksOne h u s (s.link h u).2 := by
  rw [link_eq hx, hagreed, hdown]
  refine ⟨(isLinked_of_get? hx).trans hdown, isLinked_markLinked (s := s.setHost h _) hx, fun k => ?_⟩
  rw [host_markLinked, host_setHost]
  split
  · next hk =>
    rw [hk]
    rfl
  · rfl

theorem link_of_refused (hx : s.units.get? u = some unit)
    (hrefused : (s.host h).refusals.unlinkable.get? unit.name = some reason) :
    s.link h u = (.error (.linkFailed unit.name reason), s) := by
  rw [link_eq hx, hrefused]

theorem link_links (hx : s.units.get? u = some unit) (h : HostId) :
    s.KeepsLinks (s.link h u).2 ∨ LinksOne h u s (s.link h u).2 := by
  cases hrefusal : (s.host h).refusals.unlinkable.get? unit.name with
  | some reason =>
    rw [link_of_refused hx hrefusal]
    exact .inl (.refl s)
  | none =>
    cases hflag : unit.linked with
    | true => exact .inl (link_again hx hflag hrefusal)
    | false => exact .inr (link_first hx hflag hrefusal)

-- ================================================================ loads

/-- What a load comes to that is to link the unit found. -/
theorem load_of_found (hfound : s.sought l name scope = (.ok u, r)) (hx : r.units.get? u = some unit) :
    s.load l name true scope =
      if unit.linked then (.ok u, r)
      else match (r.host l.host).refusals.unlinkable.get? unit.name with
        | some reason => (.error (.error (.host (.linkFailed unit.name reason))), r.release u)
        | none => (.ok u, (r.link l.host u).2) := by
  rw [load_eq, hfound]
  dsimp only
  rw [linkFound_eq, isLinked_of_get? hx]
  cases unit.linked with
  | true => rfl
  | false =>
    cases hrefusal : (r.host l.host).refusals.unlinkable.get? unit.name with
    | some reason =>
      rw [link_of_refused hx hrefusal]
      rfl
    | none =>
      rw [link_eq hx, hrefusal]
      rfl

/-- What a host has against a new unit is never that it cannot be linked. -/
theorem refusal?_ne_linkFailed {alive : UnitId → Bool} {y : Host} {e : HostError}
    (he : y.refusal? alive c d = some e) (m reason : String) : e.toLoadError ≠ .host (.linkFailed m reason) := by
  unfold Host.refusal? at he
  split at he
  · cases he
    exact LoadError.noConfusion
  · cases he
    simp [HostError.toLoadError]
  · split at he
    · cases he
      simp [HostError.toLoadError]
    · split at he
      · cases he
        exact LoadError.noConfusion
      · cases he

/-- A definition fails for other reasons than a link. -/
theorem defining_ne_linkFailed (c : ContextId) (h : HostId) (d : Definition) (m reason : String) :
    s.defining c h d ≠ .failure (.error (.host (.linkFailed m reason))) := by
  unfold defining
  intro hf
  split at hf
  · cases hf
  · split at hf
    · split at hf <;> cases hf
    · split at hf
      · next e he => exact refusal?_ne_linkFailed he m reason (Failure.error.inj (Finding.failure.inj hf))
      · cases hf

theorem finding_ne_linkFailed (name : String) (scope : Option ResolutionScope) (path : List Stop)
    (m reason : String) : s.finding name scope path ≠ .failure (.error (.host (.linkFailed m reason))) := by
  intro hf
  rcases finding_failure hf with ⟨hraised, -⟩ | ⟨id, c, h, -, hsupply⟩
  · cases hraised
  · unfold supply at hsupply
    split at hsupply
    · cases hsupply
    · exact defining_ne_linkFailed c h _ m reason hsupply

/-- The search that a load starts from does not fail for a link. -/
theorem sought_ne_linkFailed (hs : s.Consistent) (hl : s.Holds l.path) (hscope : s.KnowsScope scope)
    (name m reason : String) :
    (s.sought l name scope).1 ≠ .error (.error (.host (.linkFailed m reason))) := by
  intro hfailed
  have ho := sought_outcome hs hl hscope name
  rw [hfailed] at ho
  have hf := ho.eq_failure
  rw [seeking, Finding.ofLookup_orElse_eq_failure, resolving] at hf
  rcases Finding.orElse_eq_failure.1 hf.2 with hfinding | ⟨-, hnotFound⟩
  · exact finding_ne_linkFailed name (some scope) l.path m reason hfinding
  · cases hnotFound

/-- A load fails as its search does, and not for a link; or it finds a unit, and then its host has the last
word on linking it. -/
theorem load_cases (hs : s.Consistent) (hl : s.Holds l.path) (hscope : s.KnowsScope scope) (name : String) :
    (∃ e r, (∀ m reason, e ≠ .error (.host (.linkFailed m reason))) ∧ s.KeepsLinks r ∧
      ∀ link, s.perform (.load l name link scope) = (.failed e, r)) ∨
    ∃ u unit r, r.units.get? u = some unit ∧ s.KeepsLinks r ∧
      (r.host l.host).refusals = (s.host l.host).refusals ∧
      s.perform (.load l name false scope) = (.unit u, r) ∧
      s.perform (.load l name true scope) =
        if unit.linked then (.unit u, r)
        else match (r.host l.host).refusals.unlinkable.get? unit.name with
          | some reason => (.failed (.error (.host (.linkFailed unit.name reason))), r.release u)
          | none => (.unit u, (r.link l.host u).2) := by
  have hsearch := (sought_outcome hs hl hscope name).keepsLinks hs
  obtain ⟨result, r, hr⟩ : ∃ result r, s.sought l name scope = (result, r) := ⟨_, _, rfl⟩
  rw [hr] at hsearch
  cases result with
  | error e =>
    refine .inl ⟨e, r, fun m reason he => ?_, hsearch, fun link => ?_⟩
    · have hother := sought_ne_linkFailed hs hl hscope name m reason
      rw [hr, he] at hother
      exact hother rfl
    · rw [perform, load_eq, hr]
      rfl
  | ok u =>
    have ho := sought_outcome hs hl hscope name
    rw [hr] at ho
    obtain ⟨unit, hx⟩ := ho.record hs
    refine .inr ⟨u, unit, r, hx, hsearch, ho.refusals hs l.host, ?_, ?_⟩
    · rw [perform, load_plain, hr]
      rfl
    · rw [perform, load_of_found hr hx]
      split
      · rfl
      · split <;> rfl

/-- A load changes no flag and counts no link, but for the unit that it finds. -/
theorem load_keeps_or_links (hs : s.Consistent) (hl : s.Holds l.path) (hscope : s.KnowsScope scope)
    (name : String) (link : Bool) : s.KeepsLinks (s.perform (.load l name link scope)).2 ∨
      ∃ u, LinksOne l.host u s (s.perform (.load l name link scope)).2 := by
  rcases load_cases hs hl hscope name with ⟨e, r, -, hkeeps, hload⟩ | ⟨u, unit, r, hx, hkeeps, -, hplain, hload⟩
  · rw [hload]
    exact .inl hkeeps
  · cases link with
    | false =>
      rw [hplain]
      exact .inl hkeeps
    | true =>
      rw [hload]
      split
      · exact .inl hkeeps
      · split
        · exact .inl (hkeeps.trans (.release r u))
        · exact (link_links hx l.host).imp hkeeps.trans fun hone => ⟨u, hkeeps.linksOne hone⟩

-- ================================================================ every command

/-- A command that links nothing on purpose leaves all flags and counts of links alone. -/
theorem perform_keepsLinks (hs : s.Consistent) (hc : cmd.Counted) (hp : cmd.Possible s)
    (hlinker : cmd.linker? = none) : s.KeepsLinks (s.perform cmd).2 := by
  obtain ⟨hl, hmark⟩ := hc
  cases cmd with
  | define | findResident | resolveViaChain | resolve | cached | findLoaded =>
    obtain ⟨f, ho⟩ := perform_outcome hs hp trivial
    exact ho.keepsLinks hs
  | newHost refusals => exact .newHost hs.toNumbered refusals
  | newForeign units raises via =>
    have hadopt := adopt_induction (P := s.KeepsLinks) (fun t u ht _ => ht.trans (.of_eq rfl rfl))
      (fun t u ht => ht.trans (.disown t u)) units .empty s (.refl s) hp.1
    exact hadopt.trans (.of_eq rfl rfl)
  | createLoader parent locations h =>
    cases parent <;> exact .of_eq rfl rfl
  | configuredLoader config parent h => exact .configuredLoader s config parent h
  | loaderFromFile file content parent h =>
    simp only [perform, answering, loaderFromFile]
    split
    · exact .refl s
    · exact .configuredLoader s _ parent h
  | publish h location d => exact .setHost rfl
  | registerConstants l g values =>
    simp only [perform, answering, registerConstants]
    split
    · exact .refl s
    · exact .of_eq rfl rfl
  | close l =>
    simp only [perform, close_eq]
    split
    · exact .refl s
    · refine ⟨fun _ => rfl, fun k => ?_⟩
      refine host_setHost_congr (f := Host.links) ?_ k
      rfl
  | buildDetached d => exact ⟨isLinked_withNew hs.toNumbered none d, fun _ => rfl⟩
  | release u => exact .release s u
  | letGo path =>
    exact letGo_induction path (P := s.KeepsLinks) (fun t u ht => ht.trans (.disown t u)) (.of_eq rfl rfl)
  | link | load => cases hlinker
  | markLinked u => exact absurd rfl (hmark u)
  | insertCached | clearCache | drainQueue | registerPool | clearPools | install | releaseHost =>
    exact absurd trivial hl
  | newContext | rootLoader | loaderInContext | childLoader | isolatedLoader | addLocation | retain | hold |
    sweep => exact .of_eq rfl rfl

/-- A command links nothing, or its host links one unit. -/
theorem perform_links (hs : s.Consistent) (hc : cmd.Counted) (hp : cmd.Possible s) :
    s.KeepsLinks (s.perform cmd).2 ∨
      ∃ h u, cmd.linker? = some h ∧ LinksOne h u s (s.perform cmd).2 := by
  cases hlinker : cmd.linker? with
  | none => exact .inl (perform_keepsLinks hs hc hp hlinker)
  | some h =>
    cases cmd with
    | link k u =>
      obtain ⟨unit, hx⟩ := Option.isSome_iff_exists.1 (hs.alive (alive_of_mem_handles hp.2))
      rw [← Option.some.inj hlinker]
      exact (link_links hx k).imp_right fun hone => ⟨k, u, rfl, hone⟩
    | load l name link scope =>
      rw [← Option.some.inj hlinker]
      exact (load_keeps_or_links hs hp.1 hp.2 name link).imp_right fun ⟨u, hone⟩ => ⟨l.host, u, rfl, hone⟩
    | _ => cases hlinker

/-- Where no flag goes up, nobody links anything. -/
theorem KeepsLinks.not_links (ht : s.KeepsLinks (s.perform cmd).2) (h : HostId) (u : UnitId) :
    ¬ s.Links cmd h u := by
  rintro ⟨-, hdown, hup⟩
  rw [ht.isLinked, hdown] at hup
  cases hup

/-- Where one flag goes up, the host of the command links that unit and no other. -/
theorem LinksOne.links_iff (ht : LinksOne h u s (s.perform cmd).2) (hlinker : cmd.linker? = some h) :
    s.Links cmd k v ↔ k = h ∧ v = u := by
  constructor
  · rintro ⟨hk, hdown, hup⟩
    refine ⟨Option.some.inj (hk.symm.trans hlinker), ((ht.isLinked v).1 hup).resolve_right ?_⟩
    rw [hdown]
    exact Bool.false_ne_true
  · rintro ⟨rfl, rfl⟩
    exact ⟨hlinker, ht.before, (ht.isLinked v).2 (.inl rfl)⟩

-- ================================================================ what a load promises

/-- A load that is to link the unit it finds gives it linked. -/
theorem load_gives_linked (hs : s.Consistent) (hl : s.Holds l.path) (hscope : s.KnowsScope scope)
    (hu : (s.perform (.load l name true scope)).1 = .unit u) :
    (s.perform (.load l name true scope)).2.isLinked u = true := by
  rcases load_cases hs hl hscope name with ⟨e, r, -, -, hload⟩ | ⟨v, unit, r, hx, -, -, -, hload⟩
  · rw [hload] at hu
    cases hu
  · rw [hload] at hu ⊢
    split at hu
    · next hflag =>
      cases hu
      rw [if_pos hflag, isLinked_of_get? hx, hflag]
    · next hflag =>
      rw [if_neg hflag]
      split at hu
      · cases hu
      · next hagreed =>
        cases hu
        have hlinks := link_first hx (Bool.eq_false_iff.2 hflag) hagreed
        exact (hlinks.isLinked u).2 (.inl rfl)

/-- A load fails for a link only where its host refuses the name of the unit that was found, and where that
unit was not linked. Then no flag goes up, and nothing is counted. -/
theorem load_linkFailed {link : Bool} (hs : s.Consistent) (hl : s.Holds l.path) (hscope : s.KnowsScope scope)
    (hfailed : (s.perform (.load l name link scope)).1 = .failed (.error (.host (.linkFailed m reason)))) :
    link = true ∧ (s.host l.host).refusals.unlinkable.get? m = some reason ∧
      s.KeepsLinks (s.perform (.load l name link scope)).2 ∧
      ∃ u unit, (s.perform (.load l name false scope)).1 = .unit u ∧
        (s.perform (.load l name false scope)).2.units.get? u = some unit ∧ unit.name = m ∧
        s.isLinked u = false := by
  rcases load_cases hs hl hscope name with
    ⟨e, r, hother, -, hload⟩ | ⟨u, unit, r, hx, hkeeps, hsame, hplain, hload⟩
  · rw [hload] at hfailed
    exact absurd (Answer.failed.inj hfailed) (hother m reason)
  · cases link with
    | false =>
      rw [hplain] at hfailed
      cases hfailed
    | true =>
      rw [hload] at hfailed ⊢
      split at hfailed
      · cases hfailed
      · next hflag =>
        split at hfailed
        · next hrefused =>
          cases hfailed
          rw [if_neg hflag, ← hsame, hplain]
          have hdown : s.isLinked u = false := by
            rw [← hkeeps.isLinked, isLinked_of_get? hx]
            exact Bool.eq_false_iff.2 hflag
          exact ⟨rfl, hrefused, hkeeps.trans (.release r u), u, unit, rfl, hx, rfl, hdown⟩
        · cases hfailed

/-- Whatever happened before, a load that finds a unit that is not linked has its own host link it and count
that, unless this host refuses the name. -/
theorem load_links_found (hs : s.Consistent) (hl : s.Holds l.path) (hscope : s.KnowsScope scope)
    (hu : (s.perform (.load l name false scope)).1 = .unit u)
    (hx : (s.perform (.load l name false scope)).2.units.get? u = some unit) (hdown : s.isLinked u = false)
    (hagreed : (s.host l.host).refusals.unlinkable.get? unit.name = none) :
    (s.perform (.load l name true scope)).1 = .unit u ∧
      LinksOne l.host u s (s.perform (.load l name true scope)).2 := by
  rcases load_cases hs hl hscope name with ⟨e, r, -, -, hload⟩ | ⟨v, found, r, hy, hkeeps, hsame, hplain, hload⟩
  · rw [hload] at hu
    cases hu
  · rw [hplain] at hu hx
    cases hu
    obtain rfl : found = unit := Option.some.inj (hy.symm.trans hx)
    rw [← hsame] at hagreed
    have hflag : found.linked = false := by rw [← isLinked_of_get? hy, hkeeps.isLinked, hdown]
    rw [hload, hflag, if_neg Bool.false_ne_true, hagreed]
    exact ⟨rfl, hkeeps.linksOne (link_first hy hflag hagreed)⟩

end System

end UnitLoading
