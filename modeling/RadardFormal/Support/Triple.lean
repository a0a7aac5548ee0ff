import Mathlib.Logic.Basic

/-!
# Triples for programs that read, keep a state and may fail

A program of `ReaderT ρ (StateT σ Option)` reads an environment, threads a state, and
either returns a result with a final state or fails.  `Triple pre code post` is partial
correctness for it: from a state where `pre` holds, a run that returns ends in a state
where `post` holds of its result.  A failing run satisfies every triple, so the triples
say nothing about failure; results about failure are stated on the runs themselves.

The rules follow the program's structure: one for `pure`, `failure`, `>>=` and `if`, and
the rule of consequence.  A proof about a program applies them in the order its `do`
block runs, with one lemma per operation for the primitive steps.
-/

namespace RadardFormal.Support

variable {ρ σ α β : Type}

/-- From a state where `pre` holds, every run of `code` that returns ends where `post`
holds of its result. -/
def Triple (pre : ρ → σ → Prop) (code : ReaderT ρ (StateT σ Option) α)
    (post : α → ρ → σ → Prop) : Prop :=
  ∀ env state result state', pre env state →
    (code.run env).run state = some (result, state') → post result env state'

namespace Triple

variable {pre pre' : ρ → σ → Prop} {post post' : α → ρ → σ → Prop}

theorem pure_rule (a : α) : Triple (post a) (pure a) post := by
  intro env state result state' holds run
  change some (a, state) = some (result, state') at run
  cases run
  exact holds

/-- `pure` keeps every invariant. -/
theorem pure_keep (a : α) : Triple pre (pure a) (fun _ => pre) := by
  intro env state result state' holds run
  change some (a, state) = some (result, state') at run
  cases run
  exact holds

theorem failure_rule : Triple pre (failure : ReaderT ρ (StateT σ Option) α) post := by
  intro env state result state' _ run
  cases run

theorem bind_rule {code : ReaderT ρ (StateT σ Option) α}
    {next : α → ReaderT ρ (StateT σ Option) β} {mid : α → ρ → σ → Prop}
    {post : β → ρ → σ → Prop} (first : Triple pre code mid)
    (rest : ∀ a, Triple (mid a) (next a) post) : Triple pre (code >>= next) post := by
  intro env state result state' holds run
  change ((code.run env).run state).bind (fun step => ((next step.1).run env).run step.2) =
    some (result, state') at run
  obtain ⟨⟨a, middle⟩, ran, continued⟩ := Option.bind_eq_some_iff.mp run
  exact rest a env middle result state' (first env state a middle holds ran) continued

/-- The rule of consequence. -/
theorem consequence {code : ReaderT ρ (StateT σ Option) α} (triple : Triple pre code post)
    (weaker : ∀ env state, pre' env state → pre env state)
    (stronger : ∀ a env state, post a env state → post' a env state) :
    Triple pre' code post' :=
  fun env state result state' holds run =>
    stronger result env state' (triple env state result state' (weaker env state holds) run)

/-- The rule of consequence on the precondition alone. -/
theorem strengthen {code : ReaderT ρ (StateT σ Option) α} (triple : Triple pre code post)
    (weaker : ∀ env state, pre' env state → pre env state) : Triple pre' code post :=
  consequence triple weaker fun _ _ _ holds => holds

/-- The rule of consequence on the postcondition alone. -/
theorem weaken {code : ReaderT ρ (StateT σ Option) α} (triple : Triple pre code post)
    (stronger : ∀ a env state, post a env state → post' a env state) : Triple pre code post' :=
  consequence triple (fun _ _ holds => holds) stronger

theorem ite_rule {c : Prop} [Decidable c] {yes no : ReaderT ρ (StateT σ Option) α}
    (ifYes : c → Triple pre yes post) (ifNo : ¬c → Triple pre no post) :
    Triple pre (if c then yes else no) post := by
  by_cases holds : c
  · rw [if_pos holds]
    exact ifYes holds
  · rw [if_neg holds]
    exact ifNo holds

/-- Two branches that go on with the same code, as `do` compiles a bind after an `if`. -/
theorem ite_bind_rule {c : Prop} [Decidable c] {yes no : ReaderT ρ (StateT σ Option) α}
    {next : α → ReaderT ρ (StateT σ Option) β} {mid : α → ρ → σ → Prop}
    {post : β → ρ → σ → Prop} (ifYes : c → Triple pre yes mid) (ifNo : ¬c → Triple pre no mid)
    (rest : ∀ a, Triple (mid a) (next a) post) :
    Triple pre (if c then yes >>= next else no >>= next) post :=
  ite_rule (fun holds => bind_rule (ifYes holds) rest) (fun fails => bind_rule (ifNo fails) rest)

/-- A fact known before the run may be used to prove the triple. -/
theorem assume_rule {fact : Prop} {code : ReaderT ρ (StateT σ Option) α}
    (triple : fact → Triple pre code post) :
    Triple (fun env state => fact ∧ pre env state) code post :=
  fun env state result state' holds run =>
    triple holds.1 env state result state' holds.2 run

/-- No run changes the environment, so a fact about it holds throughout. -/
theorem env_keep {fact : ρ → Prop} (code : ReaderT ρ (StateT σ Option) α) :
    Triple (fun env _ => fact env) code (fun _ env _ => fact env) :=
  fun _ _ _ _ holds _ => holds

/-- The environment and the state a run starts from may be named, for the postcondition to
speak of them. -/
theorem ghost_rule {code : ReaderT ρ (StateT σ Option) α}
    (triple : ∀ env₀ state₀, Triple (fun env state => env = env₀ ∧ state = state₀ ∧ pre env state) code post) :
    Triple pre code post :=
  fun env state result state' holds run => triple env state env state result state' ⟨rfl, rfl, holds⟩ run

/-- A precondition that cannot hold proves every triple. -/
theorem absurd_rule {code : ReaderT ρ (StateT σ Option) α}
    (impossible : ∀ env state, pre env state → False) : Triple pre code post :=
  fun env state _ _ holds _ => (impossible env state holds).elim

/-- Two postconditions of one program hold together. -/
theorem and_rule {code : ReaderT ρ (StateT σ Option) α} {post₁ post₂ : α → ρ → σ → Prop}
    (first : Triple pre code post₁) (second : Triple pre code post₂) :
    Triple pre code (fun a env state => post₁ a env state ∧ post₂ a env state) :=
  fun env state result state' holds run =>
    ⟨first env state result state' holds run, second env state result state' holds run⟩

end Triple

end RadardFormal.Support
