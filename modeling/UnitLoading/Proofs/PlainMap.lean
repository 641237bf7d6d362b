/-
The plain map: what the cache of a context comes to, all laziness taken away.

A cache keeps stale entries until somebody meets them, takes them out in three places with different
guards, and works off notices that bear the name of a unit rather than the name it stands under. None of this
is to be seen from outside. Kept beside the cache, a plain map that just remembers which unit was last put
under a name since the last clearing says all that the cache ever answers, once the units that have died are
left out.

`replay` follows a list of commands with that map. `resident?_perform` says for each command what becomes of
the living entries of one cache, `Mirrors` is the relation between cache and map, and `Run.mirrors` carries
it through every run, whatever commands it has beside those of the cache.
-/
import UnitLoading.Proofs.Fading

namespace UnitLoading

variable {s t r : System} {c a : ContextId} {h k : HostId} {name x : String} {u v : UnitId} {d : Definition}
  {f : Finding} {answer : Answer} {cmd : Command} {cmds : List Command} {permitted : Command → Prop}
  {m : Table String UnitId}

/-- The unit that is given, if one is. -/
def Answer.unit? : Answer → Option UnitId
  | unit u => some u
  | _ => none

theorem Answer.unit?_eq_some : answer.unit? = some u ↔ answer = .unit u := by
  cases answer <;> simp [unit?]

namespace System

-- ================================================================ the map

/-- Whether a unit was built in a context from one state to the other. -/
def bornIn (s t : System) (c : ContextId) (u : UnitId) : Bool :=
  (s.units.get? u).isNone && (t.units.get? u).any fun unit => unit.context == some c

/-- What a command puts into the cache of a context: the name, and the unit that it gives back. A resolution
puts there what it has had built. -/
def put? (s : System) (c : ContextId) (cmd : Command) : Option (String × UnitId) :=
  let given := (s.perform cmd).1.unit?
  match cmd with
  | .insertCached a name _ => if a = c then given.map fun u => (name, u) else none
  | .define l d => if l.context = c then given.map fun u => (d.name, u) else none
  | .resolve _ name _ | .load _ name _ _ =>
    (given.filter (s.bornIn (s.perform cmd).2 c)).map fun u => (name, u)
  | _ => none

/-- Whether a command clears the cache of a context. -/
def clears (s : System) (c : ContextId) : Command → Bool
  | .clearCache a => a = c
  | .close l => l.context = c && !(c.isRoot || (s.context c).closed)
  | _ => false

/-- The plain map after a command. -/
def remember (s : System) (c : ContextId) (m : Table String UnitId) (cmd : Command) : Table String UnitId :=
  if s.clears c cmd then .empty
  else match s.put? c cmd with
    | some (name, u) => m.insert name u
    | none => m

/-- The plain map of a context after a list of commands, and the state that they lead to. -/
def replay (c : ContextId) (cmds : List Command) : Table String UnitId × System :=
  cmds.foldl (fun r cmd => (r.2.remember c r.1 cmd, (r.2.perform cmd).2)) (.empty, .initial)

-- ================================================================ one command

/-- The living entry of a name in a cache after something was put there and all other entries have faded. -/
def covered (s t : System) (c : ContextId) (x : String) : Option (String × UnitId) → Option UnitId
  | some (name, u) => if x = name then some u else (s.resident? c x).filter t.alive
  | none => (s.resident? c x).filter t.alive

theorem covered_of_alive (ha : ∀ v, r.alive v = t.alive v) (c : ContextId) (x : String)
    (put : Option (String × UnitId)) : s.covered r c x put = s.covered t c x put := by
  cases put with
  | none => simp only [covered, funext ha]
  | some p => simp only [covered, funext ha]

/-- What has stayed has faded. -/
theorem filter_of_same (hsame : t.resident? c x = s.resident? c x) :
    t.resident? c x = (s.resident? c x).filter t.alive := by
  rw [← hsame]
  exact (filter_alive fun u hu => alive_of_resident? hu).symm

/-- It is enough to know that what was put is there, and that what was not put at stayed. -/
theorem resident?_covered {put : Option (String × UnitId)}
    (hput : ∀ name u, put = some (name, u) → t.resident? c name = some u)
    (hstay : (∀ u, put ≠ some (x, u)) → t.resident? c x = s.resident? c x) :
    t.resident? c x = s.covered t c x put := by
  cases put with
  | none => exact filter_of_same (hstay fun _ => by simp)
  | some p =>
    obtain ⟨name, u⟩ := p
    by_cases hx : x = name
    · subst hx
      exact (hput x u rfl).trans (if_pos rfl).symm
    · refine (filter_of_same (hstay fun v e => hx ?_)).trans (if_neg hx).symm
      exact (Prod.mk.inj (Option.some.inj e)).1.symm

/-- A definition that gives a unit has that unit reside. -/
theorem Outcome.resident_of_defining (ho : Outcome s (s.defining c h d) (.unit u) t) (hs : s.Consistent) :
    t.resident? c d.name = some u := by
  generalize hf : s.defining c h d = f at ho
  cases ho with
  | @live u r ht hu =>
    rw [resident?_retain hu, (ht.sameLife hs).resident]
    exact defining_live hf
  | @fresh a k e r ht ha =>
    obtain ⟨rfl, rfl, rfl⟩ := defining_fresh hf
    rw [resident?_installed_eq (ht.consistent hs), if_pos ⟨rfl, rfl⟩]

theorem resident?_define {l : Loader} (hs : s.Consistent) (hl : s.Holds l.path) (d : Definition) (c : ContextId)
    (x : String) : (s.perform (.define l d)).2.resident? c x
      = s.covered (s.perform (.define l d)).2 c x (s.put? c (.define l d)) := by
  obtain ⟨hc, hh⟩ := Holds.stop hl hs
  have ho : Outcome s (s.defining l.context l.host d) (s.perform (.define l d)).1 (s.perform (.define l d)).2 :=
    defineIn_outcome hs hc hh d
  apply resident?_covered
  · intro name u hput
    simp only [put?] at hput
    split at hput
    · next hlc =>
      obtain ⟨v, hv, he⟩ := Option.map_eq_some_iff.1 hput
      obtain ⟨rfl, rfl⟩ := Prod.mk.inj he
      rw [Answer.unit?_eq_some.1 hv] at ho
      rw [← hlc]
      exact ho.resident_of_defining hs
    · cases hput
  · intro hnot
    rcases ho.resident? hs c x with hsame | ⟨k, e, u, hf, hname, hu, -⟩
    · exact hsame
    · obtain ⟨rfl, -, rfl⟩ := defining_fresh hf
      refine absurd ?_ (hnot u)
      simp [put?, hu, Answer.unit?, hname]

theorem bornIn_iff : s.bornIn t c u = true ↔ ¬ s.Built u ∧ ∃ name, t.DefinedIn u c name := by
  simp [bornIn, Built, DefinedIn, Option.any_eq_true]

/-- Whoever was alive was not born later. -/
theorem bornIn_of_alive (hs : s.Consistent) (hu : s.alive u = true) (t : System) (c : ContextId) :
    s.bornIn t c u = false := by
  rw [Bool.eq_false_iff, ne_eq, bornIn_iff]
  exact fun hborn => hborn.1 (hs.alive hu)

theorem bornIn_installed (hl : s.SameLife r) (hr : r.Consistent) (a : ContextId) (h : HostId) (d : Definition)
    (c : ContextId) : s.bornIn (r.installed a h d) c r.nextUnit = true ↔ a = c := by
  have hdefined : ∀ name, (r.installed a h d).DefinedIn r.nextUnit c name ↔ a = c ∧ d.name = name := by
    intro name
    refine (definedIn_withNew (s := r) (some a) d).trans ?_
    rw [if_pos rfl, Option.some.injEq]
  rw [bornIn_iff]
  constructor
  · rintro ⟨-, name, hd⟩
    exact ((hdefined name).1 hd).1
  · intro hac
    exact ⟨hl.not_built_nextUnit hr, d.name, (hdefined d.name).2 ⟨hac, rfl⟩⟩

/-- Linking a unit leaves it where it was defined. -/
theorem bornIn_link (t : System) (h : HostId) (v : UnitId) : s.bornIn (t.link h v).2 c u = s.bornIn t c u := by
  rw [Bool.eq_iff_iff, bornIn_iff, bornIn_iff]
  simp only [definedIn_link]

/-- A unit that a search has had built in a context resides there. -/
theorem Outcome.resident_of_bornIn (ho : Outcome s f (.unit u) t) (hs : s.Consistent)
    (hname : ∀ c h d, f = .fresh c h d → d.name = name) (hborn : s.bornIn t c u = true) :
    t.resident? c name = some u := by
  cases ho with
  | @live u r ht hu =>
    rw [bornIn_of_alive hs (((ht.sameLife hs).alive u).symm.trans hu)] at hborn
    cases hborn
  | @fresh a h d r ht ha =>
    obtain rfl : a = c := (bornIn_installed (ht.sameLife hs) (ht.consistent hs) a h d c).1 hborn
    rw [resident?_installed_eq (ht.consistent hs), if_pos ⟨rfl, (hname a h d rfl).symm⟩]

theorem Outcome.bornIn_of_fresh (ho : Outcome s (.fresh c h d) (.unit u) t) (hs : s.Consistent) :
    s.bornIn t c u = true := by
  cases ho with
  | fresh ht ha => exact (bornIn_installed (ht.sameLife hs) (ht.consistent hs) c h d c).2 rfl

/-- What a search has had built in a context it has put there, and nothing else. -/
theorem Outcome.covered (ho : Outcome s f answer t) (hs : s.Consistent)
    (hname : ∀ c h d, f = .fresh c h d → d.name = name) (c : ContextId) (x : String) :
    t.resident? c x
      = s.covered t c x ((answer.unit?.filter (s.bornIn t c)).map fun u => (name, u)) := by
  apply resident?_covered
  · intro n u hput
    obtain ⟨v, hv, he⟩ := Option.map_eq_some_iff.1 hput
    obtain ⟨rfl, rfl⟩ := Prod.mk.inj he
    obtain ⟨hgiven, hborn⟩ := Option.filter_eq_some_iff.1 hv
    rw [Answer.unit?_eq_some.1 hgiven] at ho
    exact ho.resident_of_bornIn hs hname hborn
  · intro hnot
    rcases ho.resident? hs c x with hsame | ⟨k, e, u, rfl, hx, rfl, -⟩
    · exact hsame
    · refine absurd ?_ (hnot u)
      rw [Answer.unit?, Option.filter_some, if_pos (ho.bornIn_of_fresh hs), ← hname c k e rfl, hx]
      rfl

/-- A load puts there what its search has put there: linking touches no cache, and a unit that cannot be
linked is not given. -/
theorem resident?_load {l : Loader} {scope : ResolutionScope} (hs : s.Consistent) (hl : s.Holds l.path)
    (hscope : s.KnowsScope scope) (name : String) (link : Bool) (c : ContextId) (x : String) :
    (s.perform (.load l name link scope)).2.resident? c x
      = s.covered (s.perform (.load l name link scope)).2 c x (s.put? c (.load l name link scope)) := by
  have ho := sought_outcome hs hl hscope name
  have hsearch := ho.covered hs (fun c h d hf => (seeking_fresh hs hf).2) c x
  simp only [put?, perform, answering]
  cases he : (s.load l name link scope).1 with
  | error e => exact filter_of_same ((load_failed hs hl hscope he).resident c x)
  | ok u =>
    obtain ⟨hu, hsame | hlinked⟩ := load_ok he
    · rw [hu] at hsearch
      rw [hsame]
      exact hsearch
    · rw [hu] at hsearch
      have halive : ∀ v, ((s.sought l name scope).2.link l.host u).2.alive v
          = (s.sought l name scope).2.alive v :=
        fun v => alive_link _ l.host u v
      have hborn : s.bornIn ((s.sought l name scope).2.link l.host u).2 c
          = s.bornIn (s.sought l name scope).2 c :=
        funext fun v => bornIn_link _ l.host u
      rw [hlinked, (SameTables.link _ l.host u).resident? halive, hborn, covered_of_alive halive]
      exact hsearch

theorem resident?_insertCached {make : Option UnitId → Except LoadError UnitId}
    (hp : (Command.insertCached a name make).Possible s) (c : ContextId) (x : String) :
    (s.perform (.insertCached a name make)).2.resident? c x
      = s.covered (s.perform (.insertCached a name make)).2 c x (s.put? c (.insertCached a name make)) := by
  obtain ⟨hknows, hmake⟩ := hp
  simp only [put?, perform, answering, insertCached_eq hknows]
  cases hm : make (s.resident? a name) with
  | error e =>
    have hnone : (if a = c then (Answer.ofLoad (.error e)).unit?.map fun u => (name, u) else none) = none := by
      split <;> rfl
    rw [hnone]
    exact filter_of_same rfl
  | ok u =>
    have halive : s.alive u = true := hmake u hm
    have hplace : ((s.record a name u).retain u).resident? c x
        = if c = a ∧ x = name then some u else s.resident? c x := by
      rw [resident?_retain (s := s.record a name u) halive]
      exact resident?_record halive a name c x
    by_cases hac : a = c
    · subst hac
      rw [if_pos rfl]
      by_cases hx : x = name
      · exact (hplace.trans (if_pos ⟨rfl, hx⟩)).trans (if_pos hx).symm
      · exact (filter_of_same (hplace.trans (if_neg fun e => hx e.2))).trans (if_neg hx).symm
    · rw [if_neg hac]
      exact filter_of_same (hplace.trans (if_neg fun e => hac e.1.symm))

theorem resident?_shut (s : System) (a : ContextId) (h : HostId) (c : ContextId) (x : String) :
    (s.shut a h).resident? c x = if c = a then none else s.resident? c x := by
  show ((s.setContext a (s.context a).close).context c).cache.live? s.alive x = _
  rw [context_setContext]
  split <;> rfl

theorem resident?_clearCache (s : System) (a c : ContextId) (x : String) :
    (s.perform (.clearCache a)).2.resident? c x =
      if s.clears c (.clearCache a) then none
      else (s.resident? c x).filter (s.perform (.clearCache a)).2.alive := by
  have hclears : s.clears c (.clearCache a) = decide (a = c) := rfl
  have hcontext : (s.perform (.clearCache a)).2.context c
      = if c = a then { s.context a with cache := .empty } else s.context c := context_setContext ..
  rw [hclears]
  by_cases hac : a = c
  · rw [decide_eq_true hac, resident?, hcontext, if_pos hac.symm]
    rfl
  · rw [decide_eq_false hac]
    apply filter_of_same
    rw [resident?, hcontext, if_neg fun e => hac e.symm]
    rfl

theorem resident?_close (s : System) (l : Loader) (c : ContextId) (x : String) :
    (s.close l).resident? c x =
      if s.clears c (.close l) then none else (s.resident? c x).filter (s.close l).alive := by
  have hclears : s.clears c (.close l)
      = (decide (l.context = c) && !(c.isRoot || (s.context c).closed)) := rfl
  rw [close_eq, hclears]
  split
  · next hidle =>
    have hnot : (decide (l.context = c) && !(c.isRoot || (s.context c).closed)) = false := by
      by_cases hlc : l.context = c
      · rw [← hlc, hidle, Bool.not_true, Bool.and_false]
      · rw [decide_eq_false hlc, Bool.false_and]
    rw [hnot]
    exact filter_of_same rfl
  · next hguard =>
    by_cases hlc : l.context = c
    · subst hlc
      rw [decide_eq_true rfl, Bool.true_and, Bool.eq_false_iff.2 hguard]
      exact (resident?_shut s l.context l.host l.context x).trans (if_pos rfl)
    · rw [decide_eq_false hlc, Bool.false_and]
      apply filter_of_same
      exact (resident?_shut s l.context l.host c x).trans (if_neg fun e => hlc e.symm)

/-- What a command makes of the living entries of a cache: it clears them, or puts one there, and all others
fade. -/
theorem resident?_perform (hs : s.Consistent) (hp : cmd.Possible s) (c : ContextId) (x : String) :
    (s.perform cmd).2.resident? c x =
      if s.clears c cmd then none else s.covered (s.perform cmd).2 c x (s.put? c cmd) := by
  cases cmd with
  | define l d => exact resident?_define hs hp d c x
  | resolve l name scope =>
    exact (resolve_outcome hs hp.1 hp.2 name).covered hs (fun c h d hf => (resolving_fresh hs hf).2) c x
  | load l name link scope => exact resident?_load hs hp.1 hp.2 name link c x
  | insertCached a name make => exact resident?_insertCached hp c x
  | install h a u =>
    apply filter_of_same
    show (s.install h a u).2.resident? c x = _
    rw [install_eq]
    rfl
  | close l => exact resident?_close s l c x
  | clearCache a => exact resident?_clearCache s a c x
  | releaseHost h a => exact filter_of_same rfl
  | _ => exact (perform_fades hs hp id id).resident c

-- ================================================================ every run

/-- The cache of a context has a living unit under a name exactly if the plain map has. -/
structure Mirrors (s : System) (c : ContextId) (m : Table String UnitId) : Prop where
  built {name : String} {u : UnitId} : m.get? name = some u → s.Built u
  view (name : String) : s.resident? c name = (m.get? name).filter s.alive

/-- What is put into a cache is given. -/
theorem given_of_put? (hput : s.put? c cmd = some (name, u)) : (s.perform cmd).1 = .unit u := by
  have hgiven : ∀ {given : Option UnitId} {x : String},
      (given.map fun v => (x, v)) = some (name, u) → given = some u := by
    intro given x he
    obtain ⟨v, hv, hpair⟩ := Option.map_eq_some_iff.1 he
    rw [hv, (Prod.mk.inj hpair).2]
  apply Answer.unit?_eq_some.1
  cases cmd with
  | insertCached | define =>
    simp only [put?] at hput
    split at hput
    · exact hgiven hput
    · cases hput
  | resolve | load => exact (Option.filter_eq_some_iff.1 (hgiven hput)).1
  | _ => cases hput

theorem Mirrors.step (hm : s.Mirrors c m) (hs : s.Consistent) (hp : cmd.Possible s) :
    (s.perform cmd).2.Mirrors c (s.remember c m cmd) := by
  have hon := (perform_moves hs hp).onward hs
  have hcon := (perform_moves hs hp).consistent hs
  have hfade : ∀ x, (s.resident? c x).filter (s.perform cmd).2.alive
      = (m.get? x).filter (s.perform cmd).2.alive := by
    intro x
    rw [hm.view]
    exact hon.filter_filter fun u hu => hm.built hu
  have hplace := resident?_perform hs hp c
  unfold remember
  split
  · next hclears =>
    refine ⟨fun hu => absurd hu (by simp), fun x => ?_⟩
    rw [hplace, if_pos hclears]
    rfl
  · next hclears =>
    cases hput : s.put? c cmd with
    | none =>
      refine ⟨fun hu => hon.built (hm.built hu), fun x => ?_⟩
      rw [hplace, if_neg hclears, hput]
      exact hfade x
    | some p =>
      obtain ⟨name, u⟩ := p
      have halive := alive_of_perform hs hp (given_of_put? hput)
      refine ⟨fun {x v} hv => ?_, fun x => ?_⟩
      · rw [Table.get?_insert] at hv
        split at hv
        · rw [← Option.some.inj hv]
          exact hcon.alive halive
        · exact hon.built (hm.built hv)
      · rw [hplace, if_neg hclears, hput, Table.get?_insert]
        show (if x = name then some u else (s.resident? c x).filter _) = _
        split
        · rw [Option.filter_some, if_pos halive]
        · exact hfade x

theorem replay_append (c : ContextId) (cmds : List Command) (cmd : Command) :
    replay c (cmds ++ [cmd]) = ((replay c cmds).2.remember c (replay c cmds).1 cmd,
      ((replay c cmds).2.perform cmd).2) := by
  rw [replay, List.foldl_append]
  rfl

end System

theorem System.resident?_initial (c : ContextId) (name : String) : System.initial.resident? c name = none := by
  rw [System.resident?, UnitCache.live?, (System.context_initial c name).2.1]
  rfl

/-- Along every run the plain map says what the cache has. -/
theorem Run.mirrors (hr : Run permitted .initial cmds s) (c : ContextId) :
    (System.replay c cmds).2 = s ∧ s.Mirrors c (System.replay c cmds).1 := by
  induction hr with
  | start => exact ⟨rfl, fun hu => absurd hu (by simp [System.replay]), System.resident?_initial c⟩
  | step hrest hallowed hp ih =>
    obtain ⟨hstate, hmirrors⟩ := ih
    rw [System.replay_append, hstate]
    exact ⟨rfl, hmirrors.step (hrest.consistent .initial) hp⟩

namespace System

-- ================================================================ what is to be seen

/-- Lists of different names with the same members are the same in increasing order. -/
theorem mergeSort_eq {first second : List String} (hfirst : first.Nodup) (hsecond : second.Nodup)
    (hmem : ∀ x, x ∈ first ↔ x ∈ second) : first.mergeSort = second.mergeSort := by
  have hsorted : ∀ names : List String, names.mergeSort.Pairwise fun x y => decide (x ≤ y) = true := by
    apply List.pairwise_mergeSort
    · intro x y z hxy hyz
      simp only [decide_eq_true_eq] at hxy hyz ⊢
      exact String.le_trans hxy hyz
    · intro x y
      simpa using String.le_total x y
  have hperm : first.mergeSort.Perm second.mergeSort :=
    (List.mergeSort_perm first _).trans
      (((List.perm_ext_iff_of_nodup hfirst hsecond).2 hmem).trans (List.mergeSort_perm second _).symm)
  apply hperm.eq_of_pairwise _ (hsorted first) (hsorted second)
  intro x y _ _ hxy hyx
  exact String.le_antisymm (of_decide_eq_true hxy) (of_decide_eq_true hyx)

/-- The names in a cache that live are those of the plain map that live. -/
theorem Mirrors.residentNames (hm : s.Mirrors c m) :
    s.residentNames c = (m.keys.filter fun name => ((m.get? name).filter s.alive).isSome).mergeSort := by
  -- a name that lives is a key of either table
  have hkey : ∀ {t : Table String UnitId} {name},
      ((t.get? name).filter s.alive).isSome = true → name ∈ t.keys := by
    intro t name hlive
    rw [Table.mem_keys]
    cases hu : t.get? name with
    | none =>
      rw [hu] at hlive
      exact hlive
    | some u => rfl
  apply mergeSort_eq
  · exact (s.context c).cache.entries.distinct.filter _
  · exact m.distinct.filter _
  · intro name
    have hview := hm.view name
    rw [List.mem_filter, List.mem_filter, and_iff_right_of_imp hkey, ← hview]
    exact and_iff_right_of_imp hkey

/-- The cache of a context is, to all who use it, the plain map of what was put there last, without the units
that have died. Look-ups give what the map has and whoever puts something there is shown that, a failure
changes nothing, and the names are those of the map. Neither a look-up nor a sweep, in whatever order it
takes the notices, ever takes a living unit out. -/
theorem cache_refines (hr : Run Command.Public .initial cmds s) (hc : s.Knows c) :
    let m := (replay c cmds).1
    (∀ name, (s.perform (.cached c name)).1 = .ofLookup ((m.get? name).filter s.alive)) ∧
    (∀ name make,
      (s.perform (.insertCached c name make)).1 = .ofLoad (make ((m.get? name).filter s.alive))) ∧
    (∀ name make e, make ((m.get? name).filter s.alive) = .error e →
      (s.perform (.insertCached c name make)).2 = s ∧ s.remember c m (.insertCached c name make) = m) ∧
    s.residentNames c = (m.keys.filter fun name => ((m.get? name).filter s.alive).isSome).mergeSort ∧
    (∀ cmd, cmd = .sweep c ∨ (∃ x, cmd = .cached c x) → ∀ name u, s.resident? c name = some u →
      (s.perform cmd).2.resident? c name = some u) ∧
    ∀ order, order.Perm (s.context c).cache.queue → ∀ name u, s.resident? c name = some u →
      (UnitCache.purge order (s.context c).cache.entries).2.get? name = some u := by
  have hs : s.Consistent := hr.consistent .initial
  obtain ⟨-, hmirrors⟩ := hr.mirrors c
  refine ⟨fun name => ?_, fun name make => ?_, fun name make e he => ?_, hmirrors.residentNames,
    fun cmd hcmd name u hu => ?_, fun order horder name u hu => ?_⟩
  · rw [← hmirrors.view]
    exact (cached_outcome hc name).of_lookup
  · rw [← hmirrors.view]
    simp only [perform, answering, insertCached_eq hc]
    cases make (s.resident? c name) <;> rfl
  · rw [← hmirrors.view] at he
    have hfails : s.insertCached c name make = (.error e, s) := by
      rw [insertCached_eq hc, he]
    refine ⟨by rw [perform, hfails]; rfl, ?_⟩
    have hput : s.put? c (.insertCached c name make) = none := by
      simp [put?, perform, answering, hfails, Answer.ofLoad, Answer.unit?]
    rw [remember, hput]
    rfl
  · rcases hcmd with rfl | ⟨x, rfl⟩
    · exact (((Upkeep.sweep hc).sameLife hs).resident c name).trans hu
    · rcases (cached_outcome hc x).resident? hs c name with hsame | ⟨_, _, _, hf, -⟩
      · exact hsame.trans hu
      · exact absurd hf Finding.ofLookup_ne_fresh
  · obtain ⟨hentry, halive⟩ := UnitCache.live?_eq_some_iff.1 hu
    refine UnitCache.get?_purge.2 ⟨hentry, fun hnotice => ?_⟩
    rw [hs.dead (horder.mem_iff.1 hnotice)] at halive
    cases halive

/-- A program that puts a unit under a second name and a detached one under a third, and drops the first. -/
def aliasing : List Command :=
  [.newHost .none, .rootLoader ⟨0⟩, .define .first ⟨"a", [1], none⟩, .buildDetached ⟨"z", [2], none⟩,
    .insertCached .root "b" fun _ => .ok ⟨1⟩, .insertCached .root "c" fun _ => .ok ⟨2⟩, .release ⟨1⟩,
    .release ⟨1⟩]

/-- The state that the program leads to. -/
def aliased : System := (replay .root aliasing).2

theorem run_aliasing : Run Command.Public .initial aliasing aliased := by
  refine .cons trivial trivial (.cons trivial rfl (.cons trivial ?_ (.cons trivial trivial
    (.cons trivial ?_ (.cons trivial ?_ (.cons trivial ?_ (.cons trivial ?_ .start)))))))
  · exact holds_first
  · exact ⟨rfl, fun u hu => by cases hu; rfl⟩
  · exact ⟨rfl, fun u hu => by cases hu; rfl⟩
  · exact List.mem_of_elem_eq_true rfl
  · exact List.mem_of_elem_eq_true rfl

/-- With the unit both of its names are gone, whatever the notice says, and the detached one stays. -/
theorem cache_refines_aliased :
    (aliased.perform (.cached .root "b")).1 = .absent ∧ (aliased.perform (.cached .root "c")).1 = .unit ⟨2⟩ ∧
      (∀ make, (aliased.perform (.insertCached .root "a" make)).1 = .ofLoad (make none)) ∧
      aliased.residentNames .root = ["c"] := by
  obtain ⟨hgiven, hshown, -, hnames, -⟩ := cache_refines run_aliasing (c := .root) rfl
  refine ⟨hgiven "b", hgiven "c", hshown "a", hnames.trans ?_⟩
  exact List.mergeSort_singleton "c"

end System

end UnitLoading
