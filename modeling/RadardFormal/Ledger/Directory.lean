import RadardFormal.Ledger.Frame
import RadardFormal.Support.Chain

/-!
# Directories

A directory is a chain of `ltDIR_NODE` pages under one root: page `0` is the root, each
page names the pages before and after it in `sfIndexPrevious` and `sfIndexNext`, and the
root's `sfIndexPrevious` names the last page.  `dirAdd` appends to the last page or opens
the page numbered one past it; `dirDelete` removes an entry from the page it is given and
unlinks or erases pages left empty.  This module models the readers `forEachItem`,
`cdirFirst` and `cdirNext`, states what a well-formed directory is, and shows that the
readers list exactly its entries.

A `ReadView` is modelled by what it reads: a function from keys to entries.  The loops
over pages, which the source does not bound, take a `fuel` argument that bounds the pages
they go on to; a well-formed directory needs no more fuel than it has pages.
-/

set_option autoImplicit false

namespace RadardFormal.Ledger

open RadardFormal.Protocol RadardFormal.Support

/-! ## The readers -/

/-- What `keylet::child` reads under a key: any entry but a directory page. -/
def readChild (read : Key → Option SLE) (key : Key) : Option SLE :=
  (read key).filter fun sle => sle.directoryNode?.isNone

/-- The loop of `forEachItem` from page `pos` of the owner directory of `id`: `f` is called
on what a child keylet reads under each entry of the page, then the loop goes on to the
page named in `sfIndexNext` until that is `0` or the page is missing.  `f` acts on a state
of its own; `none` is running out of fuel. -/
def forEachItemFrom {σ : Type} (read : Key → Option SLE) (id : AccountID)
    (f : σ → Option SLE → σ) (fuel pos : Nat) (state : σ) : Option σ :=
  match (read (.page (.owner id) pos)).bind SLE.directoryNode? with
  | none => some state
  | some sle =>
    let state := sle.indexes.foldl (fun state key => f state (readChild read key)) state
    if sle.indexNext == 0 then some state
    else match fuel with
      | 0 => none
      | fuel + 1 => forEachItemFrom read id f fuel sle.indexNext state

/-- `forEachItem`: the loop from the root page of the owner directory. -/
def forEachItem {σ : Type} (read : Key → Option SLE) (id : AccountID)
    (f : σ → Option SLE → σ) (state : σ) (fuel : Nat) : Option σ :=
  forEachItemFrom read id f fuel 0 state

/-- `cdirNext`: the entry at `dirEntry` of page `node`, with the page and entry to go on
from; once the page is used up, the same from the start of the page named in
`sfIndexNext`.  `none` is the `false` of the source: the last page is used up or a page it
names is missing.  `fuel` bounds the pages gone on to. -/
def cdirNext (read : Key → Option SLE) (root : DirRoot) (fuel : Nat) (node : DirectoryNode)
    (dirEntry : Nat) : Option (Key × DirectoryNode × Nat) :=
  match node.indexes[dirEntry]? with
  | some entry => some (entry, node, dirEntry + 1)
  | none =>
    if node.indexNext == 0 then none
    else match fuel, (read (.page root node.indexNext)).bind SLE.directoryNode? with
      | fuel + 1, some next => cdirNext read root fuel next 0
      | _, _ => none

/-- `cdirFirst`: `cdirNext` from the start of the root page.  The source asserts that the
root page exists, and the model answers `false` where it does not. -/
def cdirFirst (read : Key → Option SLE) (root : DirRoot) (fuel : Nat) :
    Option (Key × DirectoryNode × Nat) :=
  match (read (.page root 0)).bind SLE.directoryNode? with
  | none => none
  | some node => cdirNext read root fuel node 0

/-- Calling `cdirNext` again on each position it returns, starting from `first`, returns
the entries `keys` in order and then `false`. -/
inductive Visits (read : Key → Option SLE) (root : DirRoot) (fuel : Nat) :
    Option (Key × DirectoryNode × Nat) → List Key → Prop where
  | done : Visits read root fuel none []
  | next {key : Key} {node : DirectoryNode} {dirEntry : Nat} {keys : List Key} :
      Visits read root fuel (cdirNext read root fuel node dirEntry) keys →
      Visits read root fuel (some (key, node, dirEntry)) (key :: keys)

namespace Directory

/-! ## Well-formed directories -/

/-- Page `n` of the directory at `root`; `keylet::page` reads only directory nodes. -/
def pageOf (read : Key → Option SLE) (root : DirRoot) (n : Nat) : Option DirectoryNode :=
  (read (.page root n)).bind SLE.directoryNode?

/-- What page `n` names as the pages before and after it. -/
def links (read : Key → Option SLE) (root : DirRoot) (n : Nat) : Option (Nat × Nat) :=
  (pageOf read root n).map fun node => (node.indexPrevious, node.indexNext)

/-- The entries of page `n`. -/
def entriesOf (read : Key → Option SLE) (root : DirRoot) (n : Nat) : List Key :=
  ((pageOf read root n).map DirectoryNode.indexes).getD []

/-- The entries of the pages `pages`, page by page. -/
def entries (read : Key → Option SLE) (root : DirRoot) (pages : List Nat) : List Key :=
  pages.flatMap (entriesOf read root)

/-- The last of the pages, `0` when there are none. -/
def last (pages : List Nat) : Nat := pages.getLast?.getD 0

/-- The directory at `root` is the chain of pages `pages`: the root first, each page
naming its neighbours and the root naming the last page, page numbers increasing along
the chain and fitting in 64 bits, no other page of the directory present, at most
`DIR_NODE_MAX` entries on a page, and no entry twice.  No pages at all is the directory
with no root page. -/
structure WellFormed (read : Key → Option SLE) (root : DirRoot) (pages : List Nat) : Prop where
  rootFirst : ∀ n ∈ pages.head?, n = 0
  linked : LinkedFrom (links read root) (last pages) pages
  increasing : pages.Pairwise (· < ·)
  bounded : ∀ n ∈ pages, n < 2 ^ 64
  onChain : ∀ n, read (.page root n) ≠ none → n ∈ pages
  small : ∀ n ∈ pages, (entriesOf read root n).length ≤ ViewM.dirNodeMax
  distinct : (entries read root pages).Nodup

section reads

variable (read : Key → Option SLE) (root : DirRoot)

@[simp] theorem entries_nil : entries read root [] = [] := rfl

@[simp] theorem entries_cons (n : Nat) (pages : List Nat) :
    entries read root (n :: pages) = entriesOf read root n ++ entries read root pages :=
  List.flatMap_cons

@[simp] theorem entries_append (pages pages' : List Nat) :
    entries read root (pages ++ pages') = entries read root pages ++ entries read root pages' :=
  List.flatMap_append

theorem entriesOf_of_pageOf {n : Nat} {node : DirectoryNode}
    (found : pageOf read root n = some node) : entriesOf read root n = node.indexes := by
  simp [entriesOf, found]

theorem links_of_pageOf {n : Nat} {node : DirectoryNode}
    (found : pageOf read root n = some node) :
    links read root n = some (node.indexPrevious, node.indexNext) := by
  simp [links, found]

/-- Entries read through two views that agree on the pages. -/
theorem entries_congr {read' : Key → Option SLE} {pages : List Nat}
    (same : ∀ n ∈ pages, pageOf read' root n = pageOf read root n) :
    entries read' root pages = entries read root pages := by
  unfold entries entriesOf
  exact List.flatMap_congr fun n member => by rw [same n member]

/-- A page written into the view. -/
@[simp] theorem pageOf_update (n : Nat) (value : Option SLE) (m : Nat) :
    pageOf (Function.update read (.page root n) value) root m =
      if m = n then value.bind SLE.directoryNode? else pageOf read root m := by
  by_cases same : m = n
  · subst same
    simp [pageOf]
  · simp [pageOf, Function.update, same]

end reads

section wellFormed

variable {read : Key → Option SLE} {root : DirRoot} {pages : List Nat}

namespace WellFormed

/-- Every page of the chain is in the view. -/
theorem pageOf_of_mem (wf : WellFormed read root pages) {n : Nat} (member : n ∈ pages) :
    ∃ node, pageOf read root n = some node := by
  obtain ⟨pre, post, split⟩ := List.append_of_mem member
  have linked := wf.linked
  rw [split] at linked
  have found := LinkedFrom.link_of_append linked
  unfold links at found
  obtain ⟨node, found, -⟩ := Option.map_eq_some_iff.mp found
  exact ⟨node, found⟩

/-- What a page of the chain names: the page before it, or the last page for the root,
and the page after it, or `0` for the last page. -/
theorem links_eq (wf : WellFormed read root pages) {pre post : List Nat} {n : Nat}
    (split : pages = pre ++ n :: post) :
    links read root n = some (pre.getLast?.getD (last pages), post.head?.getD 0) := by
  have linked := wf.linked
  rw [split] at linked ⊢
  exact LinkedFrom.link_of_append linked

/-- The chain is the root followed by pages numbered above it. -/
theorem eq_zero_cons (wf : WellFormed read root pages) (nonempty : pages ≠ []) :
    ∃ rest, pages = 0 :: rest ∧ ∀ n ∈ rest, 0 < n := by
  obtain ⟨first, rest, rfl⟩ := List.exists_cons_of_ne_nil nonempty
  have isRoot : first = 0 := wf.rootFirst first rfl
  subst isRoot
  exact ⟨rest, rfl, fun n member => List.rel_of_pairwise_cons wf.increasing member⟩

/-- The root's page. -/
theorem root_links {rest : List Nat} (wf : WellFormed read root (0 :: rest)) :
    links read root 0 = some (last (0 :: rest), rest.head?.getD 0) :=
  wf.links_eq (show 0 :: rest = [] ++ 0 :: rest from rfl)

end WellFormed

/-- The directory with no root page has no page at all. -/
theorem wellFormed_nil (absent : ∀ n, read (.page root n) = none) : WellFormed read root [] where
  rootFirst := fun _ none => by cases none
  linked := trivial
  increasing := List.Pairwise.nil
  bounded := fun _ none => by cases none
  onChain := fun n present => absurd (absent n) present
  small := fun _ none => by cases none
  distinct := List.nodup_nil

theorem WellFormed.absent_of_nil (wf : WellFormed read root []) (n : Nat) :
    read (.page root n) = none := by
  by_contra present
  exact List.not_mem_nil (wf.onChain n present)

end wellFormed

/-! ## Reading a well-formed directory -/

/-- A position of `cdirNext`: page `node` at entry `dirEntry`, with `later` the pages after
it, which form a chain of pages above the root, no more of them than `fuel`. -/
structure Position (read : Key → Option SLE) (root : DirRoot) (fuel : Nat)
    (node : DirectoryNode) (dirEntry : Nat) (later : List Nat) : Prop where
  inPage : dirEntry ≤ node.indexes.length
  fuelled : later.length ≤ fuel
  next : node.indexNext = later.head?.getD 0
  chain : ∃ prev, LinkedFrom (links read root) prev later
  positive : ∀ m ∈ later, m ≠ 0

/-- What is left to list from a position. -/
def remaining (read : Key → Option SLE) (root : DirRoot) (node : DirectoryNode)
    (dirEntry : Nat) (later : List Nat) : List Key :=
  node.indexes.drop dirEntry ++ entries read root later

theorem Position.mono {read : Key → Option SLE} {root : DirRoot} {fuel fuel' : Nat}
    {node : DirectoryNode} {dirEntry : Nat} {later : List Nat}
    (position : Position read root fuel node dirEntry later) (more : fuel ≤ fuel') :
    Position read root fuel' node dirEntry later :=
  { position with fuelled := position.fuelled.trans more }

/-- The page after a position's page, as the chain has it. -/
theorem pageOf_of_linked {read : Key → Option SLE} {root : DirRoot} {prev m : Nat}
    {later : List Nat} (linked : LinkedFrom (links read root) prev (m :: later)) :
    ∃ next, pageOf read root m = some next ∧ next.indexNext = later.head?.getD 0 := by
  obtain ⟨next, found, same⟩ := Option.map_eq_some_iff.mp linked.1
  exact ⟨next, found, (Prod.mk.inj same).2⟩

/-- What one call of `cdirNext` returns from a position with `keys` left: `false` when
nothing is left, and otherwise the first key with a position for the rest. -/
def StepsTo (read : Key → Option SLE) (root : DirRoot) (fuel : Nat)
    (result : Option (Key × DirectoryNode × Nat)) : List Key → Prop
  | [] => result = none
  | key :: rest => ∃ node' dirEntry' later', result = some (key, node', dirEntry') ∧
      Position read root fuel node' dirEntry' later' ∧ remaining read root node' dirEntry' later' = rest

theorem StepsTo.mono {read : Key → Option SLE} {root : DirRoot} {fuel fuel' : Nat}
    {result : Option (Key × DirectoryNode × Nat)} (more : fuel ≤ fuel') :
    ∀ {keys : List Key}, StepsTo read root fuel result keys → StepsTo read root fuel' result keys
  | [], returned => returned
  | _ :: _, ⟨node', dirEntry', later', returned, position, rest⟩ =>
    ⟨node', dirEntry', later', returned, position.mono more, rest⟩

theorem cdirNext_of_lt {read : Key → Option SLE} {root : DirRoot} {fuel : Nat}
    {node : DirectoryNode} {dirEntry : Nat} (inside : dirEntry < node.indexes.length) :
    cdirNext read root fuel node dirEntry = some (node.indexes[dirEntry], node, dirEntry + 1) := by
  rw [cdirNext.eq_def, List.getElem?_eq_getElem inside]

theorem cdirNext_of_le {read : Key → Option SLE} {root : DirRoot} {fuel : Nat}
    {node : DirectoryNode} {dirEntry : Nat} (past : node.indexes.length ≤ dirEntry) :
    cdirNext read root fuel node dirEntry =
      if node.indexNext == 0 then none
      else match fuel, pageOf read root node.indexNext with
        | fuel + 1, some next => cdirNext read root fuel next 0
        | _, _ => none := by
  rw [cdirNext.eq_def, List.getElem?_eq_none past]
  rfl

/-- An entry left on the position's own page is returned first. -/
theorem stepsTo_of_lt {read : Key → Option SLE} {root : DirRoot} {fuel : Nat}
    {node : DirectoryNode} {dirEntry : Nat} {later : List Nat}
    (position : Position read root fuel node dirEntry later)
    (inside : dirEntry < node.indexes.length) :
    StepsTo read root fuel (cdirNext read root fuel node dirEntry)
      (remaining read root node dirEntry later) := by
  rw [remaining, List.drop_eq_getElem_cons inside, List.cons_append, cdirNext_of_lt inside]
  exact ⟨node, dirEntry + 1, later, rfl, { position with inPage := inside }, rfl⟩

/-- One call of `cdirNext` from a position, by induction on the pages after it, which the
call passes over while they are empty. -/
theorem cdirNext_spec {read : Key → Option SLE} {root : DirRoot} :
    ∀ {later : List Nat} {fuel : Nat} {node : DirectoryNode} {dirEntry : Nat},
      Position read root fuel node dirEntry later →
      StepsTo read root fuel (cdirNext read root fuel node dirEntry)
        (remaining read root node dirEntry later)
  | later, fuel, node, dirEntry, position => by
    rcases Nat.lt_or_ge dirEntry node.indexes.length with inside | past
    · exact stepsTo_of_lt position inside
    have usedUp : node.indexes.drop dirEntry = [] := List.drop_eq_nil_of_le past
    cases later with
    | nil =>
      -- the last page is used up
      rw [remaining, usedUp, cdirNext_of_le past, position.next]
      rfl
    | cons m later =>
      obtain ⟨prev, linked⟩ := position.chain
      obtain ⟨next, found, nextNext⟩ := pageOf_of_linked linked
      obtain ⟨fuel, rfl⟩ : ∃ fuel', fuel = fuel' + 1 := by
        have enough := position.fuelled
        simp only [List.length_cons] at enough
        exact ⟨fuel - 1, by omega⟩
      have moved : Position read root fuel next 0 later :=
        ⟨Nat.zero_le _, by simpa using position.fuelled, nextNext, ⟨m, linked.2⟩,
          fun k member => position.positive k (List.mem_cons_of_mem _ member)⟩
      have passed : remaining read root node dirEntry (m :: later) = remaining read root next 0 later := by
        simp [remaining, usedUp, entriesOf_of_pageOf _ _ found]
      have call : cdirNext read root (fuel + 1) node dirEntry = cdirNext read root fuel next 0 := by
        have present : m ≠ 0 := position.positive m List.mem_cons_self
        rw [cdirNext_of_le past, position.next]
        simp [present, found]
      rw [passed, call]
      exact (cdirNext_spec moved).mono (Nat.le_succ fuel)
termination_by later => later.length

/-- Calling `cdirNext` from a position again and again lists what is left, by induction on
it. -/
theorem visits_remaining {read : Key → Option SLE} {root : DirRoot} {fuel : Nat} :
    ∀ (keys : List Key) {node : DirectoryNode} {dirEntry : Nat} {later : List Nat},
      Position read root fuel node dirEntry later → remaining read root node dirEntry later = keys →
      Visits read root fuel (cdirNext read root fuel node dirEntry) keys
  | [], _, _, _, position, left => by
    have step := cdirNext_spec position
    rw [left] at step
    rw [show cdirNext _ _ _ _ _ = none from step]
    exact Visits.done
  | key :: rest, _, _, _, position, left => by
    have step := cdirNext_spec position
    rw [left] at step
    obtain ⟨node', dirEntry', later', returned, position', rest'⟩ := step
    rw [returned]
    exact Visits.next (visits_remaining rest position' rest')

/-- The start of the root page is a position from which the whole directory is left. -/
theorem WellFormed.rootPosition {read : Key → Option SLE} {root : DirRoot} {pages : List Nat}
    {fuel : Nat} (wf : WellFormed read root pages) (nonempty : pages ≠ [])
    (enough : pages.length ≤ fuel) :
    ∃ rootNode rest, pageOf read root 0 = some rootNode ∧
      Position read root fuel rootNode 0 rest ∧
      remaining read root rootNode 0 rest = entries read root pages := by
  obtain ⟨rest, rfl, positive⟩ := wf.eq_zero_cons nonempty
  obtain ⟨rootNode, found⟩ := wf.pageOf_of_mem List.mem_cons_self
  have rootLinks := wf.root_links
  rw [links_of_pageOf _ _ found, Option.some.injEq, Prod.mk.injEq] at rootLinks
  have fits : rest.length ≤ fuel := by
    simp only [List.length_cons] at enough
    omega
  refine ⟨rootNode, rest, found, ⟨Nat.zero_le _, fits, rootLinks.2, ⟨0, wf.linked.2⟩,
    fun n member => (positive n member).ne'⟩, ?_⟩
  simp [remaining, entriesOf_of_pageOf _ _ found]

/-- `cdirFirst`, and `cdirNext` called again on each position it returns, list the entries
of a directory, page by page, and then return `false`. -/
theorem visits_entries {read : Key → Option SLE} {root : DirRoot} {pages : List Nat}
    {fuel : Nat} (wf : WellFormed read root pages) (enough : pages.length ≤ fuel) :
    Visits read root fuel (cdirFirst read root fuel) (entries read root pages) := by
  by_cases nonempty : pages = []
  · -- No root page: `cdirFirst` answers `false` at once.
    subst nonempty
    unfold cdirFirst
    rw [wf.absent_of_nil 0]
    exact .done
  obtain ⟨rootNode, rest, found, position, whole⟩ := wf.rootPosition nonempty enough
  have first : cdirFirst read root fuel = cdirNext read root fuel rootNode 0 := by
    unfold cdirFirst
    rw [show (read (.page root 0)).bind SLE.directoryNode? = some rootNode from found]
  rw [first]
  exact visits_remaining _ position whole

/-- The loop of `forEachItem` from a position at the start of a page, by induction on the
pages after it. -/
theorem forEachItemFrom_spec {σ : Type} {read : Key → Option SLE} {id : AccountID}
    (f : σ → Option SLE → σ) :
    ∀ {later : List Nat} {fuel pos : Nat} {node : DirectoryNode} {state : σ},
      pageOf read (.owner id) pos = some node → Position read (.owner id) fuel node 0 later →
      forEachItemFrom read id f fuel pos state =
        some ((remaining read (.owner id) node 0 later).foldl
          (fun state key => f state (readChild read key)) state)
  | [], fuel, pos, node, state, found, position => by
    rw [forEachItemFrom, show (read (.page (.owner id) pos)).bind SLE.directoryNode? = some node
      from found]
    simp [position.next, remaining]
  | m :: later, fuel, pos, node, state, found, position => by
    obtain ⟨prev, linked⟩ := position.chain
    obtain ⟨next, foundNext, nextNext⟩ := pageOf_of_linked linked
    obtain ⟨fuel, rfl⟩ : ∃ fuel', fuel = fuel' + 1 := by
      have enough := position.fuelled
      simp only [List.length_cons] at enough
      exact ⟨fuel - 1, by omega⟩
    have moved : Position read (.owner id) fuel next 0 later :=
      ⟨Nat.zero_le _, by simpa using position.fuelled, nextNext, ⟨m, linked.2⟩,
        fun k member => position.positive k (List.mem_cons_of_mem _ member)⟩
    have present : m ≠ 0 := position.positive m List.mem_cons_self
    rw [forEachItemFrom, show (read (.page (.owner id) pos)).bind SLE.directoryNode? = some node
      from found]
    simp only [position.next, List.head?_cons, Option.getD_some, beq_iff_eq, present, if_false]
    rw [forEachItemFrom_spec f foundNext moved]
    simp [remaining, entriesOf_of_pageOf _ _ foundNext]

/-- `forEachItem` calls `f` on what a child keylet reads under each entry of a well-formed
owner directory, page by page, each entry once. -/
theorem forEachItem_entries {σ : Type} {read : Key → Option SLE} {id : AccountID}
    {pages : List Nat} {fuel : Nat} (wf : WellFormed read (.owner id) pages)
    (enough : pages.length ≤ fuel) (f : σ → Option SLE → σ) (state : σ) :
    forEachItem read id f state fuel =
      some ((entries read (.owner id) pages).foldl
        (fun state key => f state (readChild read key)) state) := by
  by_cases nonempty : pages = []
  · subst nonempty
    unfold forEachItem
    rw [forEachItemFrom, wf.absent_of_nil 0]
    rfl
  · obtain ⟨rootNode, rest, found, position, whole⟩ := wf.rootPosition nonempty enough
    rw [forEachItem, forEachItemFrom_spec f found position, whole]

end Directory

end RadardFormal.Ledger
