/-
Resolution scopes: the override contexts that a thread of execution has pushed, innermost first. A scope is
a plain value which every resolution is given; nothing is found through hidden state.

The chain of a scope is the order in which its contexts are searched: each override, innermost first, with
its ancestors behind it, a context that came before being left out, and the root at the end unless it came
before.
-/
import UnitLoading.Ident

namespace UnitLoading

/-- A stack of override contexts, innermost first. -/
structure ResolutionScope where
  overrides : List ContextId
  deriving DecidableEq, Inhabited, Repr

namespace ResolutionScope

-- ================================================================ the stack

/-- The scope without overrides: it searches the root alone. -/
def empty : ResolutionScope := ⟨[]⟩

/-- The scope with one override. -/
def withActive (c : ContextId) : ResolutionScope := ⟨[c]⟩

def push (s : ResolutionScope) (c : ContextId) : ResolutionScope := ⟨c :: s.overrides⟩

/-- Takes the innermost override off; an empty scope has none to give. -/
def pop (s : ResolutionScope) : Option ContextId × ResolutionScope :=
  (s.overrides.head?, ⟨s.overrides.tail⟩)

/-- The innermost override. -/
def active? (s : ResolutionScope) : Option ContextId := s.overrides.head?

def depth (s : ResolutionScope) : Nat := s.overrides.length

/-- Takes overrides off until no more than `depth` are left. -/
def truncate (s : ResolutionScope) (depth : Nat) : ResolutionScope :=
  ⟨s.overrides.drop (s.depth - depth)⟩

/-- Runs `body` on the scope with one more override and cuts the scope it leaves back to the depth it had
before. A body that pops more than it pushes leaves a shorter scope. -/
def withOverride [Monad m] (s : ResolutionScope) (c : ContextId)
    (body : ResolutionScope → m (α × ResolutionScope)) : m (α × ResolutionScope) := do
  let (a, s') ← body (s.push c)
  return (a, s'.truncate s.depth)

-- ================================================================ the chain

/-- Every override followed by its ancestors, innermost override first, and the root behind them all. -/
def walk (ancestors : ContextId → List ContextId) (s : ResolutionScope) : List ContextId :=
  (s.overrides.flatMap fun c => c :: ancestors c) ++ [.root]

/-- The items of `xs` that are not in `seen`, each at its first place only. -/
def firsts (seen : List ContextId) : List ContextId → List ContextId
  | [] => []
  | c :: cs => if c ∈ seen then firsts seen cs else c :: firsts (c :: seen) cs

/-- The contexts in the order of their search. -/
def chain (ancestors : ContextId → List ContextId) (s : ResolutionScope) : List ContextId :=
  firsts [] (s.walk ancestors)

theorem mem_firsts {seen l : List ContextId} {c : ContextId} :
    c ∈ firsts seen l ↔ c ∈ l ∧ c ∉ seen := by
  induction l generalizing seen with
  | nil => simp [firsts]
  | cons d ds ih =>
    by_cases h : d ∈ seen
    · simp only [firsts, h, ↓reduceIte, ih, List.mem_cons]
      constructor
      · exact fun hc => ⟨.inr hc.1, hc.2⟩
      · rintro ⟨rfl | hc, hn⟩
        · exact absurd h hn
        · exact ⟨hc, hn⟩
    · simp only [firsts, h, ↓reduceIte, ih, List.mem_cons]
      by_cases hc : c = d <;> simp [hc, h]

theorem nodup_firsts {seen l : List ContextId} : (firsts seen l).Nodup := by
  induction l generalizing seen with
  | nil => simp [firsts]
  | cons d ds ih =>
    by_cases h : d ∈ seen
    · simp [firsts, h, ih]
    · simp [firsts, h, ih, mem_firsts]

/-- A chain has exactly the contexts of the walk. -/
theorem mem_chain {ancestors : ContextId → List ContextId} {s : ResolutionScope} {c : ContextId} :
    c ∈ s.chain ancestors ↔ c ∈ s.walk ancestors := by
  simp [chain, mem_firsts]

/-- A chain has no context twice. -/
theorem nodup_chain {ancestors : ContextId → List ContextId} {s : ResolutionScope} :
    (s.chain ancestors).Nodup := nodup_firsts

/-- Cutting back to the depth that a scope had takes off whatever was pushed on it. -/
theorem truncate_append (pushed : List ContextId) (s : ResolutionScope) :
    (⟨pushed ++ s.overrides⟩ : ResolutionScope).truncate s.depth = s := by
  simp [truncate, depth]

end ResolutionScope

end UnitLoading
