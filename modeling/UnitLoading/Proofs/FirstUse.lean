/-
First use: a name that is resolved for the first time never meets a second unit of its name.

# Why nothing is in the way

A resolution only defines what nobody on the path had at hand, and `verdict` lists all who were asked: the
loader that supplies the definition is one of them. Its cache had no living unit of the name and its host
had none in its context. Nothing on the way puts one there, however many caches were swept, chains searched
and foreign loaders asked, even if those resolve through a loader of the very same context and host, since
a search that finds nothing leaves the life of the state as it is. So the definition meets a closed context,
or a host that misses the bytes, or it succeeds (`defining_of_absent`).

# What is left to go wrong

`FirstUseFailure` lists the failures that remain, and `verdict_failure` goes through the list of places to
find which of them gave the failure. A load adds nothing, since a host that takes everything links whatever
was found.
-/
import UnitLoading.Proofs.Defining
import UnitLoading.Proofs.HostFirst
import UnitLoading.Proofs.Isolation
import UnitLoading.Proofs.Places
import UnitLoading.Proofs.ResolutionOrder

namespace UnitLoading

variable {s t : System} {name : String} {d : Definition} {l k : Loader} {scope : ResolutionScope}
  {f g : Finding} {answer : Answer} {e : Failure} {cmd : Command} {path : List Stop}

namespace Finding

theorem ofLookup_ne_failure {found : Option UnitId} : ofLookup found ≠ .failure e := by
  cases found <;> exact Finding.noConfusion

theorem orElse_eq_failure : f.orElse g = .failure e ↔ f = .failure e ∨ f = .nothing ∧ g = .failure e := by
  cases f <;> simp [orElse]

/-- A look-up does not fail, so a failure comes from what is tried after it has found nothing. -/
theorem ofLookup_orElse_eq_failure {found : Option UnitId} :
    (ofLookup found).orElse g = .failure e ↔ found = none ∧ g = .failure e := by
  rw [orElse_eq_failure, or_iff_right ofLookup_ne_failure, ofLookup_eq_nothing]

theorem forgiven_eq_failure : f.forgiven = .failure e ↔ f = .failure .raised ∧ e = .raised := by
  cases f with
  | failure e' => cases e' <;> cases e <;> simp [forgiven]
  | live | fresh | nothing => simp [forgiven]

end Finding

namespace System

theorem Outcome.eq_failure (ho : Outcome s f (.failed e) t) : f = .failure e := by
  cases ho
  rfl

-- ================================================================ who breaks off

theorem defining_ne_raised (c : ContextId) (h : HostId) (d : Definition) :
    s.defining c h d ≠ .failure .raised := by
  unfold defining
  intro hf
  split at hf
  · cases hf
  · split at hf
    · split at hf <;> cases hf
    · split at hf <;> cases hf

theorem supply_ne_raised (id : LoaderId) (c : ContextId) (h : HostId) :
    s.supply id c h name ≠ .failure .raised := by
  unfold supply
  split
  · exact Finding.noConfusion
  · exact defining_ne_raised c h _

/-- If a resolution fails, a foreign loader on the path broke off at the name, or it is a loader on the path
that failed to supply it. -/
theorem finding_failure {scope : Option ResolutionScope} (hf : s.finding name scope path = .failure e) :
    (e = .raised ∧ ∃ id units raises, .foreign id units raises ∈ path ∧ name ∈ raises) ∨
      ∃ id c h, .dynamic id c h ∈ path ∧ s.supply id c h name = .failure e := by
  induction path generalizing scope e with
  | nil => cases hf
  | cons stop rest ih =>
    have hbehind : ∀ {scope e}, s.finding name scope rest = .failure e →
        (e = .raised ∧ ∃ id units raises, .foreign id units raises ∈ stop :: rest ∧ name ∈ raises) ∨
          ∃ id c h, .dynamic id c h ∈ stop :: rest ∧ s.supply id c h name = .failure e := by
      intro scope e hf
      rcases ih hf with ⟨he, id, units, raises, hstop, hname⟩ | ⟨id, c, h, hstop, hsupply⟩
      · exact .inl ⟨he, id, units, raises, List.mem_cons_of_mem _ hstop, hname⟩
      · exact .inr ⟨id, c, h, List.mem_cons_of_mem _ hstop, hsupply⟩
    cases stop with
    | foreign id units raises =>
      unfold finding at hf
      split at hf
      · next hname =>
        cases hf
        exact .inl ⟨rfl, id, units, raises, List.mem_cons_self, hname⟩
      · obtain ⟨-, hvia⟩ := Finding.ofLookup_orElse_eq_failure.1 hf
        obtain ⟨hraised, rfl⟩ := Finding.forgiven_eq_failure.1 hvia
        exact hbehind hraised
    | dynamic id c h =>
      unfold finding at hf
      simp only [Finding.ofLookup_orElse_eq_failure] at hf
      obtain ⟨-, -, -, hf⟩ := hf
      rcases Finding.orElse_eq_failure.1 hf with hrest | ⟨-, hsupply⟩
      · exact hbehind hrest
      · exact .inr ⟨id, c, h, List.mem_cons_self, hsupply⟩

/-- If a resolution breaks off, a foreign loader on the path did so at the name. -/
theorem finding_raised {scope : Option ResolutionScope} (hf : s.finding name scope path = .failure .raised) :
    ∃ id units raises, .foreign id units raises ∈ path ∧ name ∈ raises := by
  rcases finding_failure hf with ⟨-, hraised⟩ | ⟨id, c, h, -, hsupply⟩
  · exact hraised
  · exact absurd hsupply (supply_ne_raised id c h)

/-- The only failure of a foreign loader is that it breaks off, itself or one behind it. -/
theorem foreignAnswer_failure (hf : s.foreignAnswer name (foreignEnd path) = .failure e) :
    e = .raised ∧ ∃ id units raises, .foreign id units raises ∈ path ∧ name ∈ raises := by
  cases hend : foreignEnd path with
  | none =>
    rw [hend] at hf
    cases hf
  | some x =>
    have hanswer : s.finding name none x.path = .failure e := by
      rw [hend] at hf
      exact hf
    have hraised : e = .raised := by
      rw [hend, foreignAnswer] at hf
      split at hf
      · cases hf
        rfl
      · obtain ⟨-, hvia⟩ := Finding.ofLookup_orElse_eq_failure.1 hf
        exact (Finding.forgiven_eq_failure.1 hvia).2
    subst hraised
    obtain ⟨id, units, raises, hstop, hname⟩ := finding_raised hanswer
    exact ⟨rfl, id, units, raises, (path_suffix_of_foreignEnd hend).subset hstop, hname⟩

-- ================================================================ nothing is in the way

/-- Where nothing of the name is at hand, a definition only fails at a closed context or for want of
bytes. -/
theorem defining_of_absent (hplain : (s.host k.host).refusals = .none) (habsent : s.atLoader? k d.name = none) :
    s.defining k.context k.host d =
      if (s.context k.context).closed then .failure (.error (.closed k.context))
      else if d.bytes = [] then .failure (.error (.host (.rejected d.name "unit has no bytes")))
      else .fresh k.context k.host d := by
  obtain ⟨hresident, hloaded⟩ := Option.or_eq_none_iff.1 habsent
  rw [defining, hresident, Host.refusal?_plain hplain hloaded]
  dsimp only
  split
  · rfl
  · by_cases hempty : d.bytes = []
    · rw [if_pos hempty, if_pos hempty]
      rfl
    · rw [if_neg hempty, if_neg hempty]

/-- The loader that supplies a definition is one of those asked, and the definition has the name that was
asked for. -/
theorem supplier?_spec (hs : s.Consistent) {loaders : List Loader} (hk : s.supplier? name loaders = some (k, d)) :
    k ∈ loaders ∧ d.name = name := by
  obtain ⟨x, hx, hfound⟩ := List.exists_of_findSome?_eq_some hk
  obtain ⟨d', hlocate, hpair⟩ := Option.map_eq_some_iff.1 hfound
  obtain ⟨rfl, rfl⟩ := Prod.mk.inj hpair
  obtain ⟨location, -, hpublished⟩ := List.exists_of_findSome?_eq_some hlocate
  exact ⟨List.mem_reverse.1 hx, hs.published hpublished⟩

-- ================================================================ the failures that remain

/-- The failures that a resolution of a name may end in, each with what has gone wrong. -/
inductive FirstUseFailure (s : System) (l : Loader) (name : String) : Failure → Prop
  /-- A foreign loader on the path breaks off at the name. -/
  | raised {id : LoaderId} {units : Table String UnitId} {raises : List String}
      (hstop : .foreign id units raises ∈ l.path) (hname : name ∈ raises) : FirstUseFailure s l name .raised
  /-- Nobody knows the name. -/
  | notFound : FirstUseFailure s l name (.error (.notFound name l.context))
  /-- The context of the loader whose locations have the name is closed. -/
  | closed {k : Loader} {d : Definition} (hk : s.supplier? name (lineage l.path) = some (k, d))
      (hclosed : (s.context k.context).closed = true) : FirstUseFailure s l name (.error (.closed k.context))
  /-- What was published under the name has no bytes. -/
  | rejected {k : Loader} {d : Definition} (hk : s.supplier? name (lineage l.path) = some (k, d))
      (hempty : d.bytes = []) :
      FirstUseFailure s l name (.error (.host (.rejected name "unit has no bytes")))

/-- What the locations supply fails in no other way, if nothing was at hand before. -/
theorem supplied_failure (hs : s.Consistent)
    (hplain : ∀ k ∈ lineage l.path, (s.host k.host).refusals = .none)
    (habsent : ∀ k ∈ lineage l.path, s.atLoader? k name = none)
    (hf : s.supplied name (lineage l.path) = .failure e) : s.FirstUseFailure l name e := by
  unfold supplied at hf
  split at hf
  · next k d hk =>
    obtain ⟨hmem, rfl⟩ := supplier?_spec hs hk
    rw [defining_of_absent (hplain k hmem) (habsent k hmem)] at hf
    split at hf
    · next hclosed =>
      cases hf
      exact .closed hk hclosed
    · split at hf
      · next hempty =>
        cases hf
        exact .rejected hk hempty
      · cases hf
  · cases hf

/-- The places of a resolution, one after the other: look-ups do not fail, a foreign loader only breaks off,
and where the locations are tried, everybody on the path has been asked. -/
theorem verdict_failure (hs : s.Consistent)
    (hplain : ∀ k ∈ lineage l.path, (s.host k.host).refusals = .none)
    (hf : s.verdict l name scope = .failure e) : s.FirstUseFailure l name e := by
  simp only [verdict, Finding.ofLookup_orElse_eq_failure] at hf
  obtain ⟨hhere, -, hbehind, hf⟩ := hf
  rcases Finding.orElse_eq_failure.1 hf with hforeign | ⟨-, hf⟩
  · obtain ⟨rfl, id, units, raises, hstop, hname⟩ := foreignAnswer_failure hforeign
    exact .raised (List.mem_cons_of_mem _ hstop) hname
  rcases Finding.orElse_eq_failure.1 hf with hsupplied | ⟨-, hnobody⟩
  · refine supplied_failure hs hplain ?_ hsupplied
    intro k hk
    rcases List.mem_cons.1 hk with rfl | hk
    · exact hhere
    · exact List.findSome?_eq_none_iff.1 hbehind k hk
  · cases hnobody
    exact .notFound

/-- A load from a host that takes everything fails only if the search for the unit fails. -/
theorem fst_load_plain (hs : s.Consistent) (hl : s.Holds l.path) (hscope : s.KnowsScope scope)
    (hplain : (s.host l.host).refusals = .none) (name : String) (link : Bool) :
    (s.load l name link scope).1 = (s.sought l name scope).1 := by
  cases link with
  | false => rw [load_plain]
  | true => exact (load_linked hs hl hscope hplain).1

/-- Resolving or loading a name in any state that a program can reach, with hosts that take everything, never
reports a second unit of a name and never fails to link. Unless a foreign loader breaks off, it fails only
because nobody knows the name, because the loader whose locations have it is closed, or because what was
published there has no bytes. -/
theorem first_use_failures (hr : s.Reachable Command.Public) (hl : s.Holds l.path)
    (hscope : s.KnowsScope scope) (hplain : ∀ k ∈ lineage l.path, (s.host k.host).refusals = .none)
    (hcmd : cmd.Resolves l name scope) (he : (s.perform cmd).1 = .failed e) :
    s.FirstUseFailure l name e ∧
      ∀ n c reason, e ≠ .error (.duplicateDefinition n c) ∧ e ≠ .error (.host (.alreadyDefined n c)) ∧
        e ≠ .error (.host (.linkFailed n reason)) := by
  have hs := hr.consistent
  have hverdict : s.verdict l name scope = .failure e := by
    rw [← resolving_eq]
    rcases hcmd with rfl | ⟨link, rfl⟩
    · have ho := resolve_outcome hs hl hscope name
      rw [show Answer.ofResolution (s.resolve l name scope).1 = .failed e from he] at ho
      exact ho.eq_failure
    · have ho := sought_outcome hs hl hscope name
      have hsame := fst_load_plain hs hl hscope (hplain l List.mem_cons_self) name link
      rw [← hsame, show Answer.ofResolution (s.load l name link scope).1 = .failed e from he] at ho
      exact (Finding.ofLookup_orElse_eq_failure.1 ho.eq_failure).2
  have hfailure := verdict_failure hs hplain hverdict
  refine ⟨hfailure, ?_⟩
  intro n c reason
  refine ⟨?_, ?_, ?_⟩
  all_goals
    rintro rfl
    cases hfailure

/-- The layered state after a definition without bytes was published at the location of the loader in the
middle. -/
def hollow : System := (layered.perform (.publish ⟨0⟩ "lib" ⟨"e", [], none⟩)).2

/-- The layered state after the loader in the middle was closed. -/
def shuttered : System := (layered.perform (.close .inner)).2

theorem reachable_hollow : hollow.Reachable Command.Public := reachable_layered.step trivial rfl

theorem reachable_shuttered : shuttered.Reachable Command.Public :=
  reachable_layered.step trivial (layered_holds_outer.suffix (List.suffix_cons _ _))

theorem mem_lineage_outer (hk : k ∈ lineage Loader.outer.path) : k = .outer ∨ k = .inner := by
  simpa [lineage, Loader.outer, Loader.inner, Loader.path, ForeignLoader.path] using hk

/-- What a delegate supplies fails through the loader under it as well: its host refuses a definition without
bytes, and once it is closed it refuses every definition. Nobody knows any other name. -/
theorem first_use_failures_layered :
    let rejected := Failure.error (.host (.rejected "e" "unit has no bytes"))
    let closed := Failure.error (.closed ⟨1⟩)
    let unknown := Failure.error (.notFound "z" ⟨2⟩)
    (hollow.perform (.load .outer "e" true (.withActive ⟨3⟩))).1 = .failed rejected ∧
      hollow.FirstUseFailure .outer "e" rejected ∧
      (shuttered.perform (.resolve .outer "s" (.withActive ⟨3⟩))).1 = .failed closed ∧
      shuttered.FirstUseFailure .outer "s" closed ∧
      (shuttered.perform (.load .outer "z" false (.withActive ⟨3⟩))).1 = .failed unknown ∧
      shuttered.FirstUseFailure .outer "z" unknown := by
  intro rejected closed unknown
  have hrejects : (hollow.perform (.load .outer "e" true (.withActive ⟨3⟩))).1 = .failed rejected := rfl
  have hcloses : (shuttered.perform (.resolve .outer "s" (.withActive ⟨3⟩))).1 = .failed closed := rfl
  have hmisses : (shuttered.perform (.load .outer "z" false (.withActive ⟨3⟩))).1 = .failed unknown := rfl
  have hhollow : hollow.KnowsScope (.withActive ⟨3⟩) := knowsScope_withActive rfl
  have hshuttered : shuttered.KnowsScope (.withActive ⟨3⟩) := knowsScope_withActive rfl
  have hplain : ∀ k ∈ lineage Loader.outer.path, (hollow.host k.host).refusals = .none ∧
      (shuttered.host k.host).refusals = .none := by
    intro k hk
    rcases mem_lineage_outer hk with rfl | rfl <;> exact ⟨rfl, rfl⟩
  have hheld : shuttered.Holds Loader.outer.path := layered_holds_outer
  refine ⟨hrejects, ?_, hcloses, ?_, hmisses, ?_⟩
  · exact (first_use_failures reachable_hollow layered_holds_outer hhollow (fun k hk => (hplain k hk).1)
      (.inr ⟨true, rfl⟩) hrejects).1
  · exact (first_use_failures reachable_shuttered hheld hshuttered (fun k hk => (hplain k hk).2)
      (.inl rfl) hcloses).1
  · exact (first_use_failures reachable_shuttered hheld hshuttered (fun k hk => (hplain k hk).2)
      (.inr ⟨false, rfl⟩) hmisses).1

end System

end UnitLoading
