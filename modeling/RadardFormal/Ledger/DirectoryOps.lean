import RadardFormal.Ledger.Directory

/-!
# Adding to and deleting from a directory

`dirAdd` and `dirDelete` change a directory through the table of an `ApplyView`.  What
they leave is read through the table (`visible`), so the first part says, once for each
operation of the table, what it does to what code reads there; the table is assumed
coherent with the ledger under it, in that an entry it records as inserted is not in the
ledger, which `ApplyStateTable::apply` requires too.  The second part says what a well-formed
directory becomes under each change `dirAdd` and `dirDelete` make, and the last part
runs them.
-/

set_option autoImplicit false

namespace RadardFormal.Ledger

open RadardFormal.Protocol RadardFormal.Support TER

namespace ViewM

/-! ## What the table's operations do to what code reads -/

/-- Every entry the table records as inserted is new to the ledger under it. -/
def Coherent (base : OpenView) (view : ApplyViewImpl) : Prop :=
  ∀ key sle, view.items.items.lookup key = some (.insert, sle) → base.read key = none

/-- The table records something under `key`: it has looked at or changed the entry. -/
def Recorded (view : ApplyViewImpl) (key : Key) : Prop :=
  view.items.items.lookup key ≠ none

/-- `view'` is coherent and differs from `view` at most in what it records under `key`. -/
structure Changes (base : OpenView) (view view' : ApplyViewImpl) (key : Key) : Prop where
  coherent : Coherent base view'
  others : ∀ probe, probe ≠ key → view'.items.items.lookup probe = view.items.items.lookup probe

/-- A table with nothing in it is coherent with any ledger. -/
theorem coherent_fresh (base : OpenView) (flags : ApplyFlags) : Coherent base (.fresh flags) :=
  fun _ _ found => by simp [ApplyViewImpl.fresh, Overlay.empty] at found

/-- Through a table with nothing in it, code reads the ledger. -/
theorem visible_fresh (base : OpenView) (flags : ApplyFlags) :
    visible base (.fresh flags) = base.read :=
  funext fun _ => rfl

section steps

variable {base : OpenView} {view : ApplyViewImpl} {key : Key}

theorem Changes.recorded {view' : ApplyViewImpl} {probe : Key}
    (changes : Changes base view view' key) (recorded : Recorded view probe) (other : probe ≠ key) :
    Recorded view' probe := by
  unfold Recorded
  rw [changes.others probe other]
  exact recorded

/-- Reading at other keys is unchanged. -/
theorem Changes.visible_ne {view' : ApplyViewImpl} {probe : Key}
    (changes : Changes base view view' key) (other : probe ≠ key) :
    visible base view' probe = visible base view probe :=
  (Overlay.read_effect_congr base.stateMap probe (changes.others probe other)).1

/-- The table after a `peek`. -/
def peeked (base : OpenView) (view : ApplyViewImpl) (key : Key) : ApplyViewImpl :=
  { view with items := (view.items.peek base.stateMap key).2 }

/-- A `peek` changes nothing code reads, and records the key if an entry is there. -/
theorem peeked_spec (coherent : Coherent base view) (key : Key) :
    Changes base view (peeked base view key) key ∧
      visible base (peeked base view key) = visible base view ∧
      (visible base view key ≠ none → Recorded (peeked base view key) key) := by
  have others := fun probe (other : probe ≠ key) =>
    Overlay.lookup_peek_ne base.stateMap key probe view.items other
  refine ⟨⟨fun probe sle found => ?_, others⟩, funext fun probe =>
    (Overlay.read_effect_peek base.stateMap key probe view.items).1, fun present => ?_⟩
  · by_cases same : probe = key
    · subst same
      rcases Overlay.lookup_peek_self base.stateMap probe view.items with kept | ⟨_, _, _, cached⟩
      · exact coherent probe sle (kept ▸ found)
      · rw [peeked, cached] at found
        cases found
    · exact coherent probe sle ((others probe same) ▸ found)
  · unfold Recorded peeked
    unfold visible Overlay.read at present
    unfold Overlay.peek
    rcases recorded : view.items.items.lookup key with _ | ⟨action, value⟩
    · rw [recorded] at present
      rcases inBase : base.stateMap.lookup key with _ | stored
      · exact absurd inBase present
      · simp
    · cases action <;> simp [recorded]

/-- A key the table has recorded stays recorded when any key is peeked. -/
theorem Recorded.after_peek {probe : Key} (recorded : Recorded view probe) (key : Key) :
    Recorded (peeked base view key) probe := by
  unfold Recorded peeked
  by_cases same : probe = key
  · subst same
    rcases Overlay.lookup_peek_self base.stateMap probe view.items with kept | ⟨absent, -⟩
    · rw [kept]
      exact recorded
    · exact absurd absent recorded
  · rw [Overlay.lookup_peek_ne base.stateMap key probe view.items same]
    exact recorded

theorem exec_peekDirectory (key : Key) :
    (peekDirectory key).exec base view =
      some ((visible base view key).bind SLE.directoryNode?, peeked base view key) := by
  rw [peekDirectory, exec_peekAs, Overlay.peek_fst]
  rfl

/-- A write that `update` accepts: the key holds an entry the table has recorded. -/
theorem update_spec (coherent : Coherent base view) (recorded : Recorded view key)
    (present : visible base view key ≠ none) (sle : SLE) :
    ∃ view', (update key sle).exec base view = some ((), view') ∧
      Changes base view view' key ∧
      visible base view' = Function.update (visible base view) key (some sle) ∧
      Recorded view' key := by
  rcases found : view.items.items.lookup key with _ | ⟨action, value⟩
  · exact absurd found recorded
  · obtain ⟨items', updated⟩ : ∃ items', view.items.update key sle = some items' := by
      unfold visible Overlay.read at present
      rw [found] at present
      unfold Overlay.update
      rw [found]
      cases action <;> simp_all
    have others := fun probe (other : probe ≠ key) =>
      Overlay.lookup_update_ne key probe sle updated other
    refine ⟨{ view with items := items' }, by simp [updated], ⟨fun probe sle' inserted => ?_, others⟩,
      funext fun probe => ?_, ?_⟩
    · by_cases same : probe = key
      · subst same
        unfold Overlay.update at updated
        rw [found] at updated
        cases action <;> cases updated
        · simp at inserted
        · exact coherent probe value found
        · simp at inserted
      · exact coherent probe sle' ((others probe same) ▸ inserted)
    · by_cases same : probe = key
      · subst same
        rw [Function.update_self]
        exact (Overlay.read_effect_update base.stateMap probe sle updated).1
      · rw [Function.update_of_ne same]
        exact (Overlay.read_effect_congr base.stateMap probe (others probe same)).1
    · obtain ⟨action', -, recorded'⟩ := Overlay.lookup_update_self key sle updated
      unfold Recorded
      simp [recorded']

/-- An `insert` where nothing is read: the table has not looked at an entry there. -/
theorem insert_spec (coherent : Coherent base view) (absent : visible base view key = none)
    (sle : SLE) :
    ∃ view', (insert key sle).exec base view = some ((), view') ∧
      Changes base view view' key ∧
      visible base view' = Function.update (visible base view) key (some sle) ∧
      Recorded view' key := by
  obtain ⟨items', inserted, fresh⟩ : ∃ items', view.items.insert key sle = some items' ∧
      ∀ sle', items'.items.lookup key = some (.insert, sle') → base.read key = none := by
    unfold visible Overlay.read at absent
    unfold Overlay.insert
    rcases found : view.items.items.lookup key with _ | ⟨action, value⟩ <;> rw [found] at absent
    · exact ⟨_, rfl, fun _ _ => absent⟩
    · cases action <;> simp_all
  have others := fun probe (other : probe ≠ key) =>
    Overlay.lookup_insert_ne key probe sle inserted other
  refine ⟨{ view with items := items' }, by simp [inserted], ⟨fun probe sle' found => ?_, others⟩,
    funext fun probe => ?_, ?_⟩
  · by_cases same : probe = key
    · subst same
      exact fresh sle' found
    · exact coherent probe sle' ((others probe same) ▸ found)
  · by_cases same : probe = key
    · subst same
      rw [Function.update_self]
      exact (Overlay.read_effect_insert base.stateMap probe sle inserted).1
    · rw [Function.update_of_ne same]
      exact (Overlay.read_effect_congr base.stateMap probe (others probe same)).1
  · obtain ⟨action', -, recorded'⟩ := Overlay.lookup_insert_self key sle inserted
    unfold Recorded
    simp [recorded']

/-- An `erase` of an entry the table has recorded: nothing is read there afterwards, since
an entry the table inserted is not in the ledger under it. -/
theorem erase_spec (coherent : Coherent base view) (recorded : Recorded view key)
    (present : visible base view key ≠ none) :
    ∃ view', (erase key).exec base view = some ((), view') ∧
      Changes base view view' key ∧
      visible base view' = Function.update (visible base view) key none := by
  rcases found : view.items.items.lookup key with _ | ⟨action, value⟩
  · exact absurd found recorded
  · obtain ⟨items', erased⟩ : ∃ items', view.items.erase key = some items' := by
      unfold visible Overlay.read at present
      rw [found] at present
      unfold Overlay.erase
      rw [found]
      cases action <;> simp_all
    have others := fun probe (other : probe ≠ key) =>
      Overlay.lookup_erase_ne key probe erased other
    have gone : items'.read base.stateMap key = none := by
      unfold Overlay.erase at erased
      rw [found] at erased
      cases action <;> cases erased
      · simp [Overlay.read, AList.lookup_insert]
      · simpa [Overlay.read, AList.lookup_erase, OpenView.read] using coherent key value found
      · simp [Overlay.read, AList.lookup_insert]
    refine ⟨{ view with items := items' }, by simp [erased],
      ⟨fun probe sle' inserted => ?_, others⟩, funext fun probe => ?_⟩
    · by_cases same : probe = key
      · subst same
        rcases Overlay.lookup_erase_self probe erased with forgotten | ⟨_, marked⟩
        · rw [forgotten] at inserted
          cases inserted
        · rw [marked] at inserted
          cases inserted
      · exact coherent probe sle' ((others probe same) ▸ inserted)
    · by_cases same : probe = key
      · subst same
        rw [Function.update_self]
        exact gone
      · rw [Function.update_of_ne same]
        exact (Overlay.read_effect_congr base.stateMap probe (others probe same)).1

end steps

end ViewM

namespace Directory

/-! ## What a directory becomes -/

/-- The view with page `n` of the directory at `root` replaced by `node`. -/
def setPage (read : Key → Option SLE) (root : DirRoot) (n : Nat) (node : DirectoryNode) :
    Key → Option SLE :=
  Function.update read (.page root n) (some (.directoryNode node))

/-- The view with page `n` of the directory at `root` gone. -/
def erasePage (read : Key → Option SLE) (root : DirRoot) (n : Nat) : Key → Option SLE :=
  Function.update read (.page root n) none

section pages

variable (read : Key → Option SLE) (root : DirRoot) (n : Nat)

@[simp] theorem pageOf_setPage (node : DirectoryNode) (m : Nat) :
    pageOf (setPage read root n node) root m = if m = n then some node else pageOf read root m := by
  simp [setPage, SLE.directoryNode?]

@[simp] theorem pageOf_erasePage (m : Nat) :
    pageOf (erasePage read root n) root m = if m = n then none else pageOf read root m := by
  simp [erasePage]

theorem setPage_of_ne (node : DirectoryNode) {key : Key} (other : key ≠ .page root n) :
    setPage read root n node key = read key :=
  Function.update_of_ne other _ _

theorem erasePage_of_ne {key : Key} (other : key ≠ .page root n) :
    erasePage read root n key = read key :=
  Function.update_of_ne other _ _

/-- A page whose entries are kept leaves every page's entries as they were. -/
theorem entriesOf_setPage {old : DirectoryNode} (new : DirectoryNode)
    (found : pageOf read root n = some old)
    (kept : new.indexes = old.indexes) :
    entriesOf (setPage read root n new) root = entriesOf read root := by
  funext m
  by_cases same : m = n
  · subst same
    simp [entriesOf, found, kept]
  · simp [entriesOf, same]

/-- A page whose links are kept leaves every page's links as they were. -/
theorem links_setPage {old : DirectoryNode} (new : DirectoryNode)
    (found : pageOf read root n = some old)
    (kept : new.indexPrevious = old.indexPrevious ∧ new.indexNext = old.indexNext) :
    links (setPage read root n new) root = links read root := by
  funext m
  by_cases same : m = n
  · subst same
    simp [links, found, kept]
  · simp [links, same]

end pages

/-- The pages of an increasing chain are at most its last. -/
theorem le_last {pages : List Nat} (increasing : pages.Pairwise (· < ·)) {n : Nat}
    (member : n ∈ pages) : n ≤ last pages := by
  obtain ⟨pre, l, rfl⟩ := (List.eq_nil_or_concat pages).resolve_left (List.ne_nil_of_mem member)
  rw [List.concat_eq_append] at increasing member ⊢
  rw [last, List.getLast?_concat, Option.getD_some]
  rcases List.mem_append.mp member with early | final
  · exact ((List.pairwise_append.mp increasing).2.2 n early l (List.mem_singleton_self l)).le
  · rw [List.mem_singleton.mp final]

section wellFormed

variable {read : Key → Option SLE} {root : DirRoot} {pages : List Nat}

/-- The root page `dirAdd` makes for a directory that has none. -/
theorem wellFormed_addRoot (wf : WellFormed read root []) {page : DirectoryNode}
    (first : page.indexPrevious = 0) (only : page.indexNext = 0) (x : Key) :
    WellFormed (setPage read root 0 { page with indexes := [x] }) root [0] ∧
      entries (setPage read root 0 { page with indexes := [x] }) root [0] = [x] := by
  have entry : entriesOf (setPage read root 0 { page with indexes := [x] }) root 0 = [x] := by
    simp [entriesOf]
  refine ⟨⟨fun n isFirst => ?_, ?_, List.pairwise_singleton _ _, by simp, fun n present => ?_,
    by simp [entry, ViewM.dirNodeMax], by simp [entry]⟩, by simp [entry]⟩
  · simpa using isFirst.symm
  · simp [LinkedFrom, links, last, first, only]
  · by_contra other
    rw [setPage_of_ne read root 0 _ (by simpa using other)] at present
    exact present (wf.absent_of_nil n)

/-- The last page, with room, takes the entry. -/
theorem wellFormed_addEntry (wf : WellFormed read root pages) (nonempty : pages ≠ [])
    {node : DirectoryNode} (found : pageOf read root (last pages) = some node)
    (room : node.indexes.length ≠ ViewM.dirNodeMax) {x : Key} (fresh : x ∉ entries read root pages) :
    WellFormed (setPage read root (last pages) { node with indexes := node.indexes ++ [x] }) root
        pages ∧
      entries (setPage read root (last pages) { node with indexes := node.indexes ++ [x] }) root
        pages = entries read root pages ++ [x] := by
  obtain ⟨pre, l, rfl⟩ := (List.eq_nil_or_concat pages).resolve_left nonempty
  rw [List.concat_eq_append] at wf fresh found ⊢
  have isLast : last (pre ++ [l]) = l := by
    rw [last, List.getLast?_concat]
    rfl
  rw [isLast] at found ⊢
  have below : ∀ n ∈ pre, n ≠ l := fun n member =>
    ((List.pairwise_append.mp wf.increasing).2.2 n member l (List.mem_singleton_self l)).ne
  have grown : entries (setPage read root l { node with indexes := node.indexes ++ [x] }) root
      (pre ++ [l]) = entries read root (pre ++ [l]) ++ [x] := by
    have before : entries (setPage read root l
        { node with indexes := node.indexes ++ [x] }) root pre = entries read root pre :=
      entries_congr read root fun n member => by simp [below n member]
    rw [entries_append, entries_append, before]
    simp [entriesOf, found]
  refine ⟨⟨wf.rootFirst, ?_, wf.increasing, wf.bounded, fun n present => ?_, fun n member => ?_,
    ?_⟩, grown⟩
  · rw [links_setPage read root l { node with indexes := node.indexes ++ [x] } found ⟨rfl, rfl⟩]
    exact wf.linked
  · by_cases same : n = l
    · simp [same]
    · rw [setPage_of_ne read root _ _ (by simpa using same)] at present
      exact wf.onChain n present
  · have before := wf.small n member
    by_cases same : n = l
    · subst same
      rw [entriesOf_of_pageOf _ _ found] at before
      simp only [entriesOf, pageOf_setPage, if_true, Option.map_some, Option.getD_some,
        List.length_append, List.length_singleton]
      omega
    · simpa [entriesOf, same] using before
  · rw [grown, List.nodup_append]
    exact ⟨wf.distinct, List.nodup_singleton x, fun a member b single => by
      rw [List.mem_singleton.mp single]
      exact fun same => fresh (same ▸ member)⟩

/-- Entries read through two views that agree on the entries of the pages. -/
theorem entries_congr_entriesOf {read' : Key → Option SLE}
    (same : ∀ n ∈ pages, entriesOf read' root n = entriesOf read root n) :
    entries read' root pages = entries read root pages :=
  List.flatMap_congr same

/-- The entries grow by one entry at the end, which was not there. -/
theorem nodup_append_fresh {keys : List Key} {x : Key} (distinct : keys.Nodup) (fresh : x ∉ keys) :
    (keys ++ [x]).Nodup := by
  rw [List.nodup_append]
  exact ⟨distinct, List.nodup_singleton x, fun a member b single => by
    rw [List.mem_singleton.mp single]
    exact fun same => fresh (same ▸ member)⟩

/-- A full last page `l`: page `l + 1` is opened with the entry, `l` names it after itself,
and the root, read again after that write since it may be `l` itself, names it as the last
page. -/
theorem wellFormed_addPage (wf : WellFormed read root pages) (nonempty : pages ≠ [])
    {node : DirectoryNode} (found : pageOf read root (last pages) = some node)
    (fits : last pages + 1 < 2 ^ 64) {x : Key} (fresh : x ∉ entries read root pages)
    {rootNode : DirectoryNode}
    (rootFound : pageOf (setPage read root (last pages) { node with indexNext := last pages + 1 })
      root 0 = some rootNode)
    {page : DirectoryNode} (before : page.indexPrevious = last pages) (after : page.indexNext = 0) :
    WellFormed (setPage (setPage (setPage read root (last pages)
        { node with indexNext := last pages + 1 }) root 0
        { rootNode with indexPrevious := last pages + 1 }) root (last pages + 1)
        { page with indexes := [x] }) root (pages ++ [last pages + 1]) ∧
      entries (setPage (setPage (setPage read root (last pages)
        { node with indexNext := last pages + 1 }) root 0
        { rootNode with indexPrevious := last pages + 1 }) root (last pages + 1)
        { page with indexes := [x] }) root (pages ++ [last pages + 1]) =
        entries read root pages ++ [x] := by
  obtain ⟨rest, rfl, positive⟩ := wf.eq_zero_cons nonempty
  generalize lDef : last (0 :: rest) = l at found fits rootFound before ⊢
  obtain ⟨root₀, rootFound₀⟩ := wf.pageOf_of_mem List.mem_cons_self
  have lMember : l ∈ 0 :: rest := by
    rw [← lDef, last, List.getLast?_eq_getLast_of_ne_nil (List.cons_ne_nil 0 rest)]
    exact List.getLast_mem _
  have atMost : ∀ n ∈ 0 :: rest, n < l + 1 := fun n member =>
    Nat.lt_succ_of_le (lDef ▸ le_last wf.increasing member)
  -- The root page after the first write: the last page itself when that is the root.
  have rootIndexes : rootNode.indexes = root₀.indexes := by
    by_cases isRoot : l = 0
    · subst isRoot
      rw [rootFound₀] at found
      simp only [pageOf_setPage, if_true, Option.some.injEq] at rootFound
      rw [← rootFound, Option.some.inj found]
    · simp only [pageOf_setPage, Ne.symm isRoot, if_false, rootFound₀, Option.some.injEq] at rootFound
      rw [rootFound]
  set read' := setPage (setPage (setPage read root l { node with indexNext := l + 1 }) root 0
    { rootNode with indexPrevious := l + 1 }) root (l + 1) { page with indexes := [x] } with readDef
  have newPage : entriesOf read' root (l + 1) = [x] := by simp [readDef, entriesOf]
  have sameEntries : ∀ n ∈ 0 :: rest, entriesOf read' root n = entriesOf read root n := by
    intro n member
    have notNew : n ≠ l + 1 := (atMost n member).ne
    by_cases isRoot : n = 0
    · subst isRoot
      simp [readDef, entriesOf, rootFound₀, rootIndexes]
    · by_cases isLast : n = l
      · subst isLast
        simp [readDef, entriesOf, found, isRoot]
      · simp [readDef, entriesOf, notNew, isRoot, isLast]
  have grown : entries read' root ((0 :: rest) ++ [l + 1]) = entries read root (0 :: rest) ++ [x] := by
    rw [entries_append, entries_congr_entriesOf sameEntries]
    simp [newPage]
  have newLinks : links read' root (l + 1) = some (l, 0) := by
    simp [readDef, links, before, after]
  have rootLinks : links read' root 0 = some (l + 1, rootNode.indexNext) := by
    simp [readDef, links]
  refine ⟨⟨fun n first => ?_, ?_, ?_, fun n member => ?_, fun n present => ?_, fun n member => ?_,
    ?_⟩, grown⟩
  · simp only [List.cons_append, List.head?_cons, Option.mem_def, Option.some.injEq] at first
    exact first.symm
  · have lastNew : last ((0 :: rest) ++ [l + 1]) = l + 1 := by
      rw [last, List.getLast?_concat]
      rfl
    rw [lastNew]
    rcases List.eq_nil_or_concat rest with noRest | ⟨rest₀, l', restDef⟩
    · -- The root was the last page: it now names the new page both ways.
      subst noRest
      have isRoot : l = 0 := by rw [← lDef]; rfl
      subst isRoot
      rw [rootFound₀] at found
      simp only [pageOf_setPage, if_true, Option.some.injEq] at rootFound
      refine ⟨?_, newLinks, trivial⟩
      rw [rootLinks, ← rootFound]
      rfl
    · rw [List.concat_eq_append] at restDef
      subst restDef
      have isLast : l' = l := by
        rw [← lDef, last, ← List.cons_append, List.getLast?_concat]
        rfl
      subst isLast
      have notRoot : l' ≠ 0 := (positive l' (by simp)).ne'
      have below : ∀ n ∈ rest₀, n < l' := fun n member =>
        (List.pairwise_append.mp (List.pairwise_cons.mp wf.increasing).2).2.2 n member l'
          (List.mem_singleton_self l')
      have rootIs : rootNode = root₀ := by
        simpa [Ne.symm notRoot, rootFound₀] using rootFound.symm
      have rootNext := wf.root_links
      rw [links_of_pageOf _ _ rootFound₀, Option.some.injEq, Prod.mk.injEq] at rootNext
      have lastPrev := LinkedFrom.link_of_append
        (show LinkedFrom _ _ (rest₀ ++ l' :: []) from wf.linked.2)
      rw [links_of_pageOf _ _ found, Option.some.injEq, Prod.mk.injEq] at lastPrev
      rw [List.cons_append, List.append_assoc, List.singleton_append, LinkedFrom.cons_iff]
      refine ⟨?_, LinkedFrom.snoc wf.linked.2 (fun n member => ?_) ?_ newLinks⟩
      · rw [rootLinks, rootIs, rootNext.2]
        cases rest₀ <;> rfl
      · have notNew : n ≠ l' + 1 := by have := below n member; omega
        have notRoot' : n ≠ 0 := (positive n (by simp [member])).ne'
        simp [readDef, links, notNew, notRoot', (below n member).ne]
      · simp [readDef, links, notRoot, lastPrev.1]
  · exact List.pairwise_append.mpr ⟨wf.increasing, List.pairwise_singleton _ _,
      fun a member b single => (List.mem_singleton.mp single) ▸ atMost a member⟩
  · rcases List.mem_append.mp member with old | new
    · exact wf.bounded n old
    · rw [List.mem_singleton.mp new]
      exact fits
  · by_cases isNew : n = l + 1
    · simp [isNew]
    by_cases isRoot : n = 0
    · simp [isRoot]
    by_cases isLast : n = l
    · exact List.mem_append_left _ (isLast ▸ lMember)
    rw [readDef, setPage_of_ne _ _ _ _ (by simpa using isNew),
      setPage_of_ne _ _ _ _ (by simpa using isRoot), setPage_of_ne _ _ _ _ (by simpa using isLast)]
      at present
    exact List.mem_append_left _ (wf.onChain n present)
  · rcases List.mem_append.mp member with old | new
    · rw [sameEntries n old]
      exact wf.small n old
    · rw [List.mem_singleton.mp new, newPage]
      simp [ViewM.dirNodeMax]
  · rw [grown]
    exact nodup_append_fresh wf.distinct fresh

/-- Moving the last element into place `i` and dropping the last place removes the element
at `i`, up to order. -/
theorem perm_dropLast_set_last {init : List Key} {last : Key} {i : Nat} (inside : i < init.length) :
    (((init ++ [last]).set i last).dropLast).Perm ((init ++ [last]).eraseIdx i) := by
  rw [List.set_append_left _ _ inside, List.dropLast_concat,
    List.eraseIdx_append_of_lt_length inside, List.set_eq_take_cons_drop _ inside,
    List.eraseIdx_eq_take_drop_succ]
  exact List.perm_middle.trans (List.perm_append_singleton _ _).symm

/-- `removeIndex` at the place of `x` removes `x`: in order when `stable`, and otherwise with
the last entry moved into its place. -/
theorem removeIndex_erase {indexes : List Key} {x : Key} (member : x ∈ indexes) (stable : Bool) :
    (ViewM.removeIndex indexes (indexes.idxOf x) stable).Perm (indexes.erase x) ∧
      (stable = true → ViewM.removeIndex indexes (indexes.idxOf x) stable = indexes.erase x) := by
  unfold ViewM.removeIndex
  by_cases several : indexes.length > 1
  · rw [if_pos several]
    cases stable with
    | true => simp [List.eraseIdx_idxOf_eq_erase]
    | false =>
      refine ⟨?_, fun stable => by cases stable⟩
      obtain ⟨init, last, rfl⟩ :=
        (List.eq_nil_or_concat indexes).resolve_left (List.ne_nil_of_mem member)
      rw [List.concat_eq_append] at member ⊢
      simp only [Bool.false_eq_true, if_false, List.getLast?_concat]
      by_cases early : x ∈ init
      · -- `x` before the last entry: the last entry takes its place
        have inside : init.idxOf x < init.length := List.idxOf_lt_length_of_mem early
        rw [List.idxOf_append_of_mem early, List.erase_append_left _ early,
          ← List.eraseIdx_idxOf_eq_erase, ← List.eraseIdx_append_of_lt_length inside]
        exact perm_dropLast_set_last inside
      · -- `x` is the last entry itself
        have isLast : x = last := by simpa [early] using member
        subst isLast
        rw [List.idxOf_append_of_notMem early, List.erase_append_right _ early]
        simp
  · rw [if_neg several]
    have one : indexes.length = 1 := by
      have := List.length_pos_of_mem member
      omega
    obtain ⟨only, rfl⟩ := List.length_eq_one_iff.mp one
    rw [List.mem_singleton.mp member]
    simp

/-- The pages of a well-formed directory are distinct. -/
theorem WellFormed.nodup (wf : WellFormed read root pages) : pages.Nodup :=
  wf.increasing.imp fun below => ne_of_lt below

/-- The entries of a directory, cut at one of its pages. -/
theorem entries_split (wf : WellFormed read root pages) {pre post : List Nat} {n : Nat}
    (split : pages = pre ++ n :: post) (read' : Key → Option SLE)
    (same : ∀ m ∈ pages, m ≠ n → pageOf read' root m = pageOf read root m) :
    entries read' root pages = entries read root pre ++ (entriesOf read' root n ++
      entries read root post) := by
  have distinct := wf.nodup
  rw [split] at distinct same ⊢
  obtain ⟨-, -, apart⟩ := List.nodup_append.mp distinct
  have fresh : n ∉ post := (List.nodup_cons.mp (List.nodup_append.mp distinct).2.1).1
  rw [entries_append, entries_cons,
    entries_congr read root fun m member => same m (by simp [member]) fun isN =>
      apart m member n List.mem_cons_self isN,
    entries_congr read root fun m (member : m ∈ post) => same m (by simp [member])
      fun isN => fresh (isN ▸ member)]

/-- The page holding `x` loses it: the directory keeps its pages, and its entries lose `x`,
in order when `stable`. -/
theorem wellFormed_removeEntry (wf : WellFormed read root pages) {n : Nat} (member : n ∈ pages)
    {node : DirectoryNode} (found : pageOf read root n = some node) {x : Key}
    (holds : x ∈ node.indexes) (stable : Bool) :
    WellFormed (setPage read root n
        { node with indexes := ViewM.removeIndex node.indexes (node.indexes.idxOf x) stable })
        root pages ∧
      (entries (setPage read root n
        { node with indexes := ViewM.removeIndex node.indexes (node.indexes.idxOf x) stable })
        root pages).Perm ((entries read root pages).erase x) ∧
      (stable = true → entries (setPage read root n
        { node with indexes := ViewM.removeIndex node.indexes (node.indexes.idxOf x) stable })
        root pages = (entries read root pages).erase x) := by
  obtain ⟨removedPerm, removedStable⟩ := removeIndex_erase holds stable
  generalize ViewM.removeIndex node.indexes (node.indexes.idxOf x) stable = removed
    at removedPerm removedStable ⊢
  obtain ⟨pre, post, split⟩ := List.append_of_mem member
  have others : ∀ m ∈ pages, m ≠ n →
      pageOf (setPage read root n { node with indexes := removed }) root m = pageOf read root m :=
    fun m _ other => by simp [other]
  have after := entries_split wf split _ others
  have before := entries_split wf split read fun _ _ _ => rfl
  rw [entriesOf_of_pageOf _ _ found] at before
  have notEarly : x ∉ entries read root pre := by
    have distinct := wf.distinct
    rw [before] at distinct
    exact fun early => (List.nodup_append.mp distinct).2.2 x early x
      (List.mem_append_left _ holds) rfl
  have erased : (entries read root pages).erase x =
      entries read root pre ++ (node.indexes.erase x ++ entries read root post) := by
    rw [before, List.erase_append_right _ notEarly, List.erase_append_left _ holds]
  have newPage : entriesOf (setPage read root n { node with indexes := removed }) root n = removed := by
    simp [entriesOf]
  rw [newPage] at after
  have sameEntries : (entries (setPage read root n { node with indexes := removed }) root
      pages).Perm ((entries read root pages).erase x) := by
    rw [after, erased]
    exact (removedPerm.append_right _).append_left _
  refine ⟨⟨wf.rootFirst, ?_, wf.increasing, wf.bounded, fun m present => ?_, fun m inPages => ?_,
    ?_⟩, sameEntries, fun isStable => ?_⟩
  · rw [links_setPage read root n { node with indexes := removed } found ⟨rfl, rfl⟩]
    exact wf.linked
  · by_cases same : m = n
    · exact same ▸ member
    · rw [setPage_of_ne read root _ _ (by simpa using same)] at present
      exact wf.onChain m present
  · by_cases same : m = n
    · subst same
      have atMost := wf.small m inPages
      rw [entriesOf_of_pageOf _ _ found] at atMost
      rw [newPage, removedPerm.length_eq]
      exact List.length_erase_le.trans atMost
    · have atMost := wf.small m inPages
      simpa [entriesOf, same] using atMost
  · exact sameEntries.nodup_iff.mpr (wf.distinct.erase x)
  · rw [after, erased, removedStable isStable]

/-! ### The pages `dirDelete` drops once one is empty -/

/-- The root names itself as the last page only when it is alone. -/
theorem WellFormed.eq_single {rest : List Nat} (wf : WellFormed read root (0 :: rest))
    (isRoot : last (0 :: rest) = 0) : rest = [] := by
  cases rest with
  | nil => rfl
  | cons a rest =>
    have positive : 0 < a := List.rel_of_pairwise_cons wf.increasing List.mem_cons_self
    have atMost : a ≤ last (0 :: a :: rest) :=
      le_last wf.increasing (List.mem_cons_of_mem 0 List.mem_cons_self)
    omega

/-- The root names one page both before and after it only when that is the only other
page. -/
theorem WellFormed.eq_pair {rest : List Nat} (wf : WellFormed read root (0 :: rest))
    (notRoot : last (0 :: rest) ≠ 0) (same : last (0 :: rest) = rest.head?.getD 0) :
    rest = [last (0 :: rest)] := by
  match rest, wf, notRoot, same with
  | [], _, notRoot, _ => exact absurd rfl notRoot
  | [a], _, _, _ => rfl
  | a :: b :: rest, wf, _, same =>
    have below : a < b := List.rel_of_pairwise_cons (List.Pairwise.of_cons wf.increasing)
      List.mem_cons_self
    have atMost : b ≤ last (0 :: a :: b :: rest) :=
      le_last wf.increasing (by simp)
    simp only [List.head?_cons, Option.getD_some] at same
    omega

/-- A page after the root that names a page after it sits between the two pages it names. -/
theorem WellFormed.split_between (wf : WellFormed read root pages) {n : Nat} (member : n ∈ pages)
    (notRoot : n ≠ 0) {p d : Nat} (linked : links read root n = some (p, d)) (hasNext : d ≠ 0) :
    ∃ pre post, pages = pre ++ p :: n :: d :: post := by
  obtain ⟨pre, post, split⟩ := List.append_of_mem member
  have named := wf.links_eq split
  rw [linked, Option.some_inj, Prod.mk.injEq] at named
  -- The root is first, so `n` has a page before it.
  obtain ⟨pre, q, rfl⟩ := (List.eq_nil_or_concat pre).resolve_left fun isNil =>
    notRoot (wf.rootFirst n (by simp [split, isNil]))
  rw [List.concat_eq_append, List.getLast?_concat, Option.getD_some] at named
  cases post with
  | nil => exact absurd named.2 hasNext
  | cons d' post =>
    obtain ⟨rfl, rfl⟩ : p = q ∧ d = d' := ⟨named.1, named.2⟩
    exact ⟨pre, post, by simp [split]⟩

/-- A page after the root that names the root before it and no page after it is the only
page besides the root. -/
theorem WellFormed.eq_root_pair (wf : WellFormed read root pages) {n : Nat} (member : n ∈ pages)
    (notRoot : n ≠ 0) (linked : links read root n = some (0, 0)) : pages = [0, n] := by
  obtain ⟨pre, post, split⟩ := List.append_of_mem member
  have named := wf.links_eq split
  rw [linked, Option.some_inj, Prod.mk.injEq] at named
  have increasing := wf.increasing
  rw [split] at increasing
  obtain ⟨pre, q, rfl⟩ := (List.eq_nil_or_concat pre).resolve_left fun isNil =>
    notRoot (wf.rootFirst n (by simp [split, isNil]))
  rw [List.concat_eq_append] at named split increasing
  rw [List.getLast?_concat, Option.getD_some] at named
  obtain ⟨rfl, lastNext⟩ := named
  -- Nothing is numbered below the root, and a page after `n` would be numbered above it.
  have noEarlier : pre = [] := List.eq_nil_iff_forall_not_mem.mpr fun m early =>
    Nat.not_lt_zero m ((List.pairwise_append.mp (List.pairwise_append.mp increasing).1).2.2
      m early 0 (List.mem_singleton_self 0))
  have noLater : post = [] := by
    cases post with
    | nil => rfl
    | cons d post =>
      have above : n < d := List.rel_of_pairwise_cons
        (List.pairwise_append.mp increasing).2.1 List.mem_cons_self
      simp only [List.head?_cons, Option.getD_some] at lastNext
      omega
  simp [split, noEarlier, noLater]

/-- A directory all of whose pages are gone from the view has none left. -/
theorem wellFormed_nil_of_erased (wf : WellFormed read root pages) {read' : Key → Option SLE}
    (gone : ∀ n ∈ pages, read' (.page root n) = none)
    (same : ∀ n, n ∉ pages → read' (.page root n) = read (.page root n)) :
    WellFormed read' root [] :=
  wellFormed_nil fun n => by
    by_cases member : n ∈ pages
    · exact gone n member
    · rw [same n member]
      by_contra present
      exact member (wf.onChain n present)

/-- Three consecutive pages of a chain without repetition are distinct from each other and
from the rest of the chain. -/
theorem nodup_between {pre post : List Nat} {p c d : Nat}
    (distinct : (pre ++ p :: c :: d :: post).Nodup) :
    c ∉ pre ++ p :: d :: post ∧ p ≠ d ∧ ∀ m ∈ pre ++ post, m ≠ p ∧ m ≠ c ∧ m ≠ d := by
  simp only [List.nodup_append, List.nodup_cons, List.mem_cons, not_or] at distinct
  simp only [List.mem_append, List.mem_cons, not_or]
  grind

/-- An emptied page `c` between `p` and `d` is unlinked: `p` names `d` after it, `d`, read
again after that write, names `p` before it, and `c` goes; the entries are as they were. -/
theorem wellFormed_unlink {pre post : List Nat} {p c d : Nat}
    (wf : WellFormed read root (pre ++ p :: c :: d :: post)) (emptied : entriesOf read root c = [])
    {prevNode : DirectoryNode} (prevFound : pageOf read root p = some prevNode)
    {nextNode : DirectoryNode}
    (nextFound : pageOf (setPage read root p { prevNode with indexNext := d }) root d =
      some nextNode) :
    WellFormed (erasePage (setPage (setPage read root p { prevNode with indexNext := d }) root d
        { nextNode with indexPrevious := p }) root c) root (pre ++ p :: d :: post) ∧
      entries (erasePage (setPage (setPage read root p { prevNode with indexNext := d }) root d
        { nextNode with indexPrevious := p }) root c) root (pre ++ p :: d :: post) =
        entries read root (pre ++ p :: c :: d :: post) := by
  generalize readDef : erasePage (setPage (setPage read root p { prevNode with indexNext := d })
    root d { nextNode with indexPrevious := p }) root c = read'
  obtain ⟨cApart, pd, outside⟩ := nodup_between wf.nodup
  have pc : p ≠ c := fun same => cApart (by simp [same])
  have dc : d ≠ c := fun same => cApart (by simp [same])
  have nextOld : pageOf read root d = some nextNode := by
    simpa [Ne.symm pd] using nextFound
  -- What `p` and `d` named before the writes.
  have prevLinks := wf.links_eq
    (show pre ++ p :: c :: d :: post = pre ++ p :: (c :: d :: post) from rfl)
  rw [links_of_pageOf _ _ prevFound] at prevLinks
  have nextLinks := wf.links_eq
    (show pre ++ p :: c :: d :: post = (pre ++ [p, c]) ++ d :: post by simp)
  rw [links_of_pageOf _ _ nextOld] at nextLinks
  simp only [Option.some_inj, Prod.mk.injEq] at prevLinks nextLinks
  have pageOf' : ∀ m, pageOf read' root m = if m = c then none
      else if m = d then some { nextNode with indexPrevious := p }
      else if m = p then some { prevNode with indexNext := d } else pageOf read root m := by
    intro m
    rw [← readDef, pageOf_erasePage, pageOf_setPage, pageOf_setPage]
  have sameEntries : ∀ m, m ≠ c → entriesOf read' root m = entriesOf read root m := by
    intro m other
    simp only [entriesOf, pageOf', if_neg other]
    split_ifs with atD atP
    · simp [atD, nextOld]
    · simp [atP, prevFound]
    · rfl
  have sameLinks : ∀ m ∈ pre ++ post, links read' root m = links read root m := by
    intro m member
    obtain ⟨notP, notC, notD⟩ := outside m member
    simp only [links, pageOf', if_neg notP, if_neg notC, if_neg notD]
  have atP : links read' root p =
      some (pre.getLast?.getD (last (pre ++ p :: c :: d :: post)), d) := by
    simp [links, pageOf', pc, pd, prevLinks.1]
  have atD : links read' root d = some (p, post.head?.getD 0) := by
    simp [links, pageOf', dc, nextLinks.2]
  have lastSame : last (pre ++ p :: d :: post) = last (pre ++ p :: c :: d :: post) := by
    simp [last, List.getLast?_append, List.getLast?_cons]
  have sub : (pre ++ p :: d :: post).Sublist (pre ++ p :: c :: d :: post) :=
    ((List.sublist_cons_self c _).cons_cons p).append_left pre
  have kept : entries read' root (pre ++ p :: d :: post) = entries read root (pre ++ p :: c :: d :: post) :=
    calc entries read' root (pre ++ p :: d :: post)
        = entries read root (pre ++ p :: d :: post) :=
          entries_congr_entriesOf fun m member => sameEntries m fun same => cApart (same ▸ member)
      _ = entries read root (pre ++ p :: c :: d :: post) := by simp [emptied]
  refine ⟨⟨fun m isHead => wf.rootFirst m (by cases pre <;> simpa using isHead), ?_,
    wf.increasing.sublist sub, fun m member => wf.bounded m (sub.subset member),
    fun m present => ?_, fun m member => ?_, kept ▸ wf.distinct⟩, kept⟩
  · rw [lastSame]
    exact LinkedFrom.splice wf.linked sameLinks atP atD
  · rw [← readDef] at present
    by_cases atC : m = c
    · simp [atC, erasePage] at present
    by_cases atD : m = d
    · simp [atD]
    by_cases atP : m = p
    · simp [atP]
    rw [erasePage_of_ne _ _ _ (by simpa using atC), setPage_of_ne _ _ _ _ (by simpa using atD),
      setPage_of_ne _ _ _ _ (by simpa using atP)] at present
    have old := wf.onChain m present
    simp only [List.mem_append, List.mem_cons] at old ⊢
    tauto
  · rw [sameEntries m fun same => cApart (same ▸ member)]
    exact wf.small m (sub.subset member)

end wellFormed

end Directory

namespace Directory

open ViewM

/-! ## Running `dirAdd` and `dirDelete`

A run is followed through the table by what code reads (`Reads`), one lemma for each
operation the two functions use; the last lemmas put the runs together with what a
directory becomes. -/

/-- Code reads `read` through a coherent table, which has recorded each of the pages `seen`
of the directory at `root` that is still there. -/
structure Reads (base : OpenView) (view : ApplyViewImpl) (read : Key → Option SLE)
    (root : DirRoot) (seen : List Nat) : Prop where
  coherent : Coherent base view
  sees : visible base view = read
  recorded : ∀ m ∈ seen, read (.page root m) ≠ none → Recorded view (.page root m)

/-- Two views that agree everywhere but on the pages of the directory at `root`. -/
def SameOutside (root : DirRoot) (read read' : Key → Option SLE) : Prop :=
  ∀ key, (∀ n, key ≠ .page root n) → read' key = read key

section running

variable {base : OpenView} {view : ApplyViewImpl} {read : Key → Option SLE} {root : DirRoot}
  {seen : List Nat}

theorem SameOutside.refl (read : Key → Option SLE) : SameOutside root read read :=
  fun _ _ => rfl

/-- Writing a page of the directory keeps everything outside it. -/
theorem SameOutside.update {read' : Key → Option SLE} (same : SameOutside root read read')
    (n : Nat) (value : Option SLE) :
    SameOutside root read (Function.update read' (.page root n) value) :=
  fun key outside => (Function.update_of_ne (outside n) _ _).trans (same key outside)

theorem SameOutside.trans {read' read'' : Key → Option SLE} (first : SameOutside root read read')
    (second : SameOutside root read' read'') : SameOutside root read read'' :=
  fun key outside => (second key outside).trans (first key outside)

theorem Reads.start (coherent : Coherent base view) : Reads base view (visible base view) root [] :=
  ⟨coherent, rfl, fun _ none => by cases none⟩

theorem Reads.mono {seen' : List Nat} (reads : Reads base view read root seen)
    (sub : ∀ m ∈ seen', m ∈ seen) : Reads base view read root seen' :=
  ⟨reads.coherent, reads.sees, fun m member => reads.recorded m (sub m member)⟩

theorem present_of_pageOf {m : Nat} {node : DirectoryNode} (found : pageOf read root m = some node) :
    read (.page root m) ≠ none := by
  intro absent
  simp [pageOf, absent] at found

/-- Reading a page gives `pageOf`, and a page that is there is recorded from then on. -/
theorem Reads.peek (reads : Reads base view read root seen) (m : Nat) :
    (peekDirectory (.page root m)).exec base view =
        some (pageOf read root m, peeked base view (.page root m)) ∧
      Reads base (peeked base view (.page root m)) read root (m :: seen) := by
  obtain ⟨changes, same, records⟩ := peeked_spec reads.coherent (.page root m)
  refine ⟨by rw [exec_peekDirectory, reads.sees]; rfl, changes.coherent,
    same.trans reads.sees, fun k member present => ?_⟩
  rcases List.mem_cons.mp member with rfl | earlier
  · exact records (reads.sees ▸ present)
  · exact (reads.recorded k earlier present).after_peek _

/-- Writing a page that is there and recorded. -/
theorem Reads.update (reads : Reads base view read root seen) {m : Nat} (member : m ∈ seen)
    (present : read (.page root m) ≠ none) (node : DirectoryNode) :
    ∃ view', (ViewM.update (.page root m) (.directoryNode node)).exec base view = some ((), view') ∧
      Reads base view' (setPage read root m node) root seen := by
  obtain ⟨view', run, changes, visible', records⟩ := update_spec reads.coherent
    (reads.recorded m member present) (reads.sees ▸ present) (.directoryNode node)
  refine ⟨view', run, changes.coherent, by rw [visible', reads.sees]; rfl,
    fun k _ _ => ?_⟩
  by_cases same : k = m
  · exact same ▸ records
  · have other : Key.page root k ≠ .page root m := by simpa using same
    refine changes.recorded (reads.recorded k ‹_› ?_) other
    rwa [setPage_of_ne read root m node other] at ‹setPage read root m node (.page root k) ≠ none›

/-- Erasing a page that is there and recorded. -/
theorem Reads.erase (reads : Reads base view read root seen) {m : Nat} (member : m ∈ seen)
    (present : read (.page root m) ≠ none) :
    ∃ view', (ViewM.erase (.page root m)).exec base view = some ((), view') ∧
      Reads base view' (erasePage read root m) root seen := by
  obtain ⟨view', run, changes, visible'⟩ := erase_spec reads.coherent
    (reads.recorded m member present) (reads.sees ▸ present)
  refine ⟨view', run, changes.coherent, by rw [visible', reads.sees]; rfl,
    fun k earlier present' => ?_⟩
  have other : Key.page root k ≠ .page root m := fun same => by
    simp [Key.page.inj same |>.2, erasePage] at present'
  rw [erasePage_of_ne read root m other] at present'
  exact changes.recorded (reads.recorded k earlier present') other

/-- Inserting a page where there is none. -/
theorem Reads.insert (reads : Reads base view read root seen) {m : Nat}
    (absent : read (.page root m) = none) (node : DirectoryNode) :
    ∃ view', (ViewM.insert (.page root m) (.directoryNode node)).exec base view = some ((), view') ∧
      Reads base view' (setPage read root m node) root (m :: seen) := by
  obtain ⟨view', run, changes, visible', records⟩ := insert_spec reads.coherent
    (reads.sees ▸ absent) (.directoryNode node)
  refine ⟨view', run, changes.coherent, by rw [visible', reads.sees]; rfl,
    fun k member present => ?_⟩
  by_cases same : k = m
  · exact same ▸ records
  · have other : Key.page root k ≠ .page root m := by simpa using same
    rw [setPage_of_ne read root m node other] at present
    exact changes.recorded (reads.recorded k ((List.mem_cons.mp member).resolve_left same)
      present) other

/-- What a run leaves of the directory at `root`, started where code read `read`: a coherent
table, nothing changed outside the directory, and the directory the well-formed chain of some
pages holding `keys`. -/
structure Leaves (base : OpenView) (view' : ApplyViewImpl) (read : Key → Option SLE)
    (root : DirRoot) (keys : List Key) : Prop where
  coherent : Coherent base view'
  outside : SameOutside root read (visible base view')
  wellFormed : ∃ pages, WellFormed (visible base view') root pages ∧
    entries (visible base view') root pages = keys

theorem Reads.leaves {read₀ : Key → Option SLE} {pages : List Nat}
    (reads : Reads base view read root seen) (outside : SameOutside root read₀ read)
    (wf : WellFormed read root pages) : Leaves base view read₀ root (entries read root pages) :=
  ⟨reads.coherent, reads.sees ▸ outside, pages, reads.sees ▸ wf, by rw [reads.sees]⟩

/-- What a run leaves, told from an earlier view that differs only on the directory. -/
theorem Leaves.rebase {view' : ApplyViewImpl} {read₀ : Key → Option SLE} {keys : List Key}
    (leaves : Leaves base view' read root keys) (outside : SameOutside root read₀ read) :
    Leaves base view' read₀ root keys :=
  ⟨leaves.coherent, outside.trans leaves.outside, leaves.wellFormed⟩

/-- A run that changes no page leaves the directory as it was. -/
theorem Reads.leaves_self {pages : List Nat} (reads : Reads base view read root seen)
    (wf : WellFormed read root pages) : Leaves base view read root (entries read root pages) :=
  reads.leaves (SameOutside.refl read) wf

/-- `dirDeleteEmptied` once the root page is empty: the root goes when it is the only page,
and so do the root and the one page after it when that is empty too. -/
theorem dirDeleteEmptied_root (reads : Reads base view read root seen) (recorded : 0 ∈ seen)
    {rest : List Nat} (wf : WellFormed read root (0 :: rest)) {node : DirectoryNode}
    (found : pageOf read root 0 = some node) (emptied : node.indexes = []) (keepRoot : Bool) :
    ∃ view', (dirDeleteEmptied keepRoot root 0 node).exec base view = some (tesSUCCESS, view') ∧
      Leaves base view' read root (entries read root (0 :: rest)) := by
  have rootLinks := wf.root_links
  rw [links_of_pageOf _ _ found, Option.some_inj, Prod.mk.injEq] at rootLinks
  obtain ⟨prevIs, nextIs⟩ := rootLinks
  unfold dirDeleteEmptied
  simp only [beq_self_eq_true, if_true, beq_iff_eq, bne_iff_ne, ne_eq]
  by_cases alone : node.indexPrevious = 0
  · -- The root is the only page: it goes.
    have only := wf.eq_single (prevIs ▸ alone)
    subst only
    rw [if_pos alone]
    obtain ⟨view', run, reads'⟩ := reads.erase recorded (present_of_pageOf found)
    rw [exec_bind, run, Option.bind_some, exec_pure]
    have keys : entries read root [0] = [] := by simp [entriesOf_of_pageOf _ _ found, emptied]
    refine ⟨view', rfl, keys ▸ reads'.leaves ((SameOutside.refl read).update 0 none)
      (wellFormed_nil_of_erased wf (fun n member => ?_) fun n other => ?_)⟩
    · simp [List.mem_singleton.mp member, erasePage]
    · exact erasePage_of_ne read root 0 (by simpa using other)
  rw [if_neg alone]
  cases keepRoot with
  | true => exact ⟨view, by simp, reads.leaves_self wf⟩
  | false =>
    simp only [Bool.false_eq_true, if_false]
    by_cases apart : node.indexPrevious = node.indexNext
    swap
    · exact ⟨view, by simp [apart], reads.leaves_self wf⟩
    rw [if_neg (not_not.mpr apart)]
    -- The root names one page before and after it: that is the only other page.
    have pair := wf.eq_pair (prevIs ▸ alone) (prevIs ▸ nextIs ▸ apart)
    rw [← prevIs, apart] at pair
    subst pair
    obtain ⟨page, pageFound⟩ := wf.pageOf_of_mem (by simp : node.indexNext ∈ [0, node.indexNext])
    obtain ⟨peekRun, peekReads⟩ := reads.peek node.indexNext
    rw [exec_bind, peekRun, Option.bind_some]
    dsimp only
    rw [pageFound]
    dsimp only
    by_cases pageEmpty : page.indexes.isEmpty
    swap
    · rw [if_neg pageEmpty, exec_pure]
      exact ⟨_, rfl, peekReads.leaves_self wf⟩
    rw [if_pos pageEmpty]
    obtain ⟨view₁, run₁, reads₁⟩ := peekReads.erase (List.mem_cons_of_mem _ recorded)
      (present_of_pageOf found)
    have other : Key.page root node.indexNext ≠ .page root 0 := by
      simpa using fun same : node.indexNext = 0 => alone (apart.trans same)
    obtain ⟨view₂, run₂, reads₂⟩ := reads₁.erase List.mem_cons_self
      (by rw [erasePage_of_ne read root 0 other]; exact present_of_pageOf pageFound)
    rw [exec_bind, run₁, Option.bind_some, exec_bind, run₂, Option.bind_some, exec_pure]
    have keys : entries read root [0, node.indexNext] = [] := by
      simp [entriesOf_of_pageOf _ _ found, entriesOf_of_pageOf _ _ pageFound, emptied,
        List.isEmpty_iff.mp pageEmpty]
    refine ⟨view₂, rfl, keys ▸ reads₂.leaves (((SameOutside.refl read).update 0 none).update _ none)
      (wellFormed_nil_of_erased wf (fun n member => ?_) fun n outside => ?_)⟩
    · rcases List.mem_pair.mp member with isRoot | isLast
      · rw [isRoot, erasePage_of_ne _ root _ other.symm]
        simp [erasePage]
      · simp [isLast, erasePage]
    · simp only [List.mem_cons, List.not_mem_nil, or_false, not_or] at outside
      rw [erasePage_of_ne _ root _ (by simpa using outside.2),
        erasePage_of_ne read root 0 (by simpa using outside.1)]

/-- `dirDeleteEmptied` once a page after the root is empty: a page in the middle is
unlinked, and the last page goes with the root when that is the only other page and empty. -/
theorem dirDeleteEmptied_page (reads : Reads base view read root seen) {n : Nat}
    (recorded : n ∈ seen) {pages : List Nat} (wf : WellFormed read root pages) (member : n ∈ pages)
    (notRoot : n ≠ 0) {node : DirectoryNode} (found : pageOf read root n = some node)
    (emptied : node.indexes = []) (keepRoot : Bool) :
    ∃ view', (dirDeleteEmptied keepRoot root n node).exec base view = some (tesSUCCESS, view') ∧
      Leaves base view' read root (entries read root pages) := by
  have nodeLinks := links_of_pageOf read root found
  unfold dirDeleteEmptied
  simp only [beq_iff_eq, bne_iff_ne, ne_eq, if_neg notRoot]
  have nowEmpty : entriesOf read root n = [] := by rw [entriesOf_of_pageOf _ _ found, emptied]
  by_cases isLast : node.indexNext = 0
  · rw [if_neg (not_not.mpr isLast)]
    -- The last page stays unless it and the root are all there is and both are empty.
    by_cases stays : (keepRoot || node.indexPrevious != 0) = true
    · exact ⟨view, by simp [stays], reads.leaves_self wf⟩
    rw [if_neg stays]
    simp only [Bool.or_eq_true, bne_iff_ne, ne_eq, not_or, Bool.not_eq_true, not_not] at stays
    have pair := wf.eq_root_pair member notRoot (by rw [nodeLinks, stays.2, isLast])
    subst pair
    obtain ⟨rootPage, rootFound⟩ := wf.pageOf_of_mem List.mem_cons_self
    obtain ⟨peekRun, peekReads⟩ := reads.peek 0
    rw [exec_bind, peekRun, Option.bind_some]
    dsimp only
    rw [rootFound]
    dsimp only
    by_cases rootEmpty : rootPage.indexes.isEmpty
    swap
    · rw [if_neg rootEmpty, exec_pure]
      exact ⟨_, rfl, peekReads.leaves_self wf⟩
    rw [if_pos rootEmpty]
    have other : Key.page root n ≠ .page root 0 := by simpa using notRoot
    obtain ⟨view₁, run₁, reads₁⟩ := peekReads.erase List.mem_cons_self (present_of_pageOf rootFound)
    obtain ⟨view₂, run₂, reads₂⟩ := reads₁.erase (List.mem_cons_of_mem _ recorded)
      (by rw [erasePage_of_ne read root 0 other]; exact present_of_pageOf found)
    rw [exec_bind, run₁, Option.bind_some, exec_bind, run₂, Option.bind_some, exec_pure]
    have keys : entries read root [0, n] = [] := by
      simp [entriesOf_of_pageOf _ _ rootFound, nowEmpty, List.isEmpty_iff.mp rootEmpty]
    refine ⟨view₂, rfl, keys ▸ reads₂.leaves (((SameOutside.refl read).update 0 none).update _ none)
      (wellFormed_nil_of_erased wf (fun m member => ?_) fun m outside => ?_)⟩
    · rcases List.mem_pair.mp member with isRoot | isN
      · rw [isRoot, erasePage_of_ne _ root _ other.symm]
        simp [erasePage]
      · simp [isN, erasePage]
    · simp only [List.mem_cons, List.not_mem_nil, or_false, not_or] at outside
      rw [erasePage_of_ne _ root _ (by simpa using outside.2),
        erasePage_of_ne read root 0 (by simpa using outside.1)]
  · -- A page in the middle: its neighbours are linked to each other and it goes.
    rw [if_pos isLast]
    obtain ⟨pre, post, rfl⟩ := wf.split_between member notRoot nodeLinks isLast
    obtain ⟨nApart, pd, -⟩ := nodup_between wf.nodup
    have pn : node.indexPrevious ≠ n := fun same => nApart (by simp [same])
    have dn : node.indexNext ≠ n := fun same => nApart (by simp [same])
    obtain ⟨prevNode, prevFound⟩ := wf.pageOf_of_mem (by simp : node.indexPrevious ∈ _)
    obtain ⟨nextNode, nextFound⟩ := wf.pageOf_of_mem (by simp : node.indexNext ∈ _)
    obtain ⟨peekRun₁, reads₁⟩ := reads.peek node.indexPrevious
    obtain ⟨peekRun₂, reads₂⟩ := reads₁.peek node.indexNext
    rw [exec_bind, peekRun₁, Option.bind_some]
    dsimp only
    rw [prevFound]
    dsimp only
    rw [exec_bind, peekRun₂, Option.bind_some]
    dsimp only
    rw [nextFound]
    dsimp only
    obtain ⟨view₃, run₃, reads₃⟩ := reads₂.update (List.mem_cons_of_mem _ List.mem_cons_self)
      (present_of_pageOf prevFound) { prevNode with indexNext := node.indexNext }
    have nextFound' : pageOf (setPage read root node.indexPrevious
        { prevNode with indexNext := node.indexNext }) root node.indexNext = some nextNode := by
      simpa [Ne.symm pd] using nextFound
    obtain ⟨peekRun₄, reads₄⟩ := reads₃.peek node.indexNext
    obtain ⟨view₅, run₅, reads₅⟩ := reads₄.update List.mem_cons_self
      (present_of_pageOf nextFound') { nextNode with indexPrevious := node.indexPrevious }
    obtain ⟨view₆, run₆, reads₆⟩ := reads₅.erase
      (List.mem_cons_of_mem _ (List.mem_cons_of_mem _ (List.mem_cons_of_mem _ recorded)))
      (by
        rw [setPage_of_ne _ root _ _ (by simpa using dn.symm),
          setPage_of_ne _ root _ _ (by simpa using pn.symm)]
        exact present_of_pageOf found)
    rw [exec_bind, run₃, Option.bind_some, exec_bind, peekRun₄, Option.bind_some]
    dsimp only
    rw [nextFound']
    dsimp only
    rw [exec_bind, run₅, Option.bind_some, exec_bind, run₆, Option.bind_some, exec_pure]
    obtain ⟨unlinked, keys⟩ := wellFormed_unlink wf nowEmpty prevFound nextFound'
    exact ⟨view₆, rfl, keys ▸ reads₆.leaves
      ((((SameOutside.refl read).update _ _).update _ _).update _ none) unlinked⟩

/-- `dirDelete` from the page that holds the entry: the entry goes, and the directory stays
well formed with its other entries, in order when `stable`. -/
theorem dirDelete_spec (reads : Reads base view read root seen) {pages : List Nat}
    (wf : WellFormed read root pages) {n : Nat} (member : n ∈ pages) {x : Key}
    (holds : x ∈ entriesOf read root n) (keepRoot stable soft : Bool) :
    ∃ view' keys, (dirDelete keepRoot n root x stable soft).exec base view =
        some (tesSUCCESS, view') ∧
      Leaves base view' read root keys ∧ keys.Perm ((entries read root pages).erase x) ∧
      (stable = true → keys = (entries read root pages).erase x) := by
  obtain ⟨node, found⟩ := wf.pageOf_of_mem member
  rw [entriesOf_of_pageOf _ _ found] at holds
  have position : node.indexes.idxOf? x = some (node.indexes.idxOf x) := by
    rw [List.idxOf_eq_getD_idxOf?]
    obtain ⟨pos, located⟩ := Option.isSome_iff_exists.mp (List.isSome_idxOf?.mpr holds)
    rw [located]
    rfl
  obtain ⟨removed, perm, inOrder⟩ := wellFormed_removeEntry wf member found holds stable
  generalize removedDef : ViewM.removeIndex node.indexes (node.indexes.idxOf x) stable = indexes
    at removed perm inOrder
  obtain ⟨peekRun, reads₁⟩ := reads.peek n
  obtain ⟨view₂, run₂, reads₂⟩ := reads₁.update List.mem_cons_self (present_of_pageOf found)
    { node with indexes }
  have outside : SameOutside root read (setPage read root n { node with indexes }) :=
    (SameOutside.refl read).update n _
  unfold dirDelete
  rw [exec_bind, peekRun, Option.bind_some]
  dsimp only
  rw [found]
  dsimp only
  rw [position]
  dsimp only
  rw [removedDef, exec_bind, run₂, Option.bind_some]
  dsimp only
  by_cases isEmpty : indexes.isEmpty
  swap
  · rw [if_neg isEmpty, exec_pure]
    exact ⟨view₂, _, rfl, reads₂.leaves outside removed, perm, inOrder⟩
  -- The page is empty now: the cleanup of `dirDeleteEmptied` keeps the entries.
  rw [if_pos isEmpty]
  have nowFound : pageOf (setPage read root n { node with indexes }) root n =
      some { node with indexes } := by simp
  have emptied : indexes = [] := List.isEmpty_iff.mp isEmpty
  by_cases isRoot : n = 0
  · subst isRoot
    obtain ⟨rest, rfl, -⟩ := removed.eq_zero_cons (List.ne_nil_of_mem member)
    obtain ⟨view', run, leaves⟩ := dirDeleteEmptied_root reads₂ List.mem_cons_self removed
      nowFound emptied keepRoot
    exact ⟨view', _, run, leaves.rebase outside, perm, inOrder⟩
  · obtain ⟨view', run, leaves⟩ := dirDeleteEmptied_page reads₂ List.mem_cons_self removed member
      isRoot nowFound emptied keepRoot
    exact ⟨view', _, run, leaves.rebase outside, perm, inOrder⟩

/-- A describer of new pages that leaves their links as given, as `fDescriber` does. -/
def KeepsLinks (describe : DirectoryNode → DirectoryNode) : Prop :=
  ∀ page, (describe page).indexPrevious = page.indexPrevious ∧
    (describe page).indexNext = page.indexNext

/-- The last page of the directory is full and no page number follows it. -/
def Exhausted (read : Key → Option SLE) (root : DirRoot) (pages : List Nat) : Prop :=
  (entriesOf read root (last pages)).length = ViewM.dirNodeMax ∧ last pages + 1 = 2 ^ 64

/-- `dirAdd` of an entry the directory lacks.  Unless the directory is exhausted, the entry
goes on the page returned, after all the others, and the directory stays well formed; an
exhausted directory gives `tecDIR_FULL` and code reads what it read before. -/
theorem dirAdd_spec (reads : Reads base view read root seen) {pages : List Nat}
    (wf : WellFormed read root pages) {x : Key} (fresh : x ∉ entries read root pages)
    {describe : DirectoryNode → DirectoryNode} (keeps : KeepsLinks describe) :
    ∃ result view', (dirAdd root x describe).exec base view = some (result, view') ∧
      ((¬ Exhausted read root pages ∧ result.1 = tesSUCCESS ∧
          Leaves base view' read root (entries read root pages ++ [x]) ∧
          x ∈ entriesOf (visible base view') root result.2) ∨
        (Exhausted read root pages ∧ result = (tecDIR_FULL, 0) ∧
          Coherent base view' ∧ visible base view' = read)) := by
  obtain ⟨peekRun, reads₁⟩ := reads.peek 0
  unfold dirAdd
  rw [exec_bind, peekRun, Option.bind_some]
  dsimp only
  by_cases isNil : pages = []
  · -- No root page: the root is made with the entry.
    subst isNil
    have absent := wf.absent_of_nil 0
    rw [show pageOf read root 0 = none by simp [pageOf, absent]]
    dsimp only
    obtain ⟨view₂, run₂, reads₂⟩ := reads₁.insert absent
      { describe ⟨root, [], 0, 0, none⟩ with indexes := [x] }
    rw [exec_bind, run₂, Option.bind_some, exec_pure]
    obtain ⟨made, keys⟩ := wellFormed_addRoot wf
      ((keeps _).1 : (describe ⟨root, [], 0, 0, none⟩).indexPrevious = 0) ((keeps _).2) x
    refine ⟨_, view₂, rfl, .inl ⟨fun exhausted => by simp [Exhausted, last] at exhausted, rfl,
      keys ▸ reads₂.leaves ((SameOutside.refl read).update 0 _) made, ?_⟩⟩
    simp [reads₂.sees, entriesOf]
  obtain ⟨rest, rfl, positive⟩ := wf.eq_zero_cons isNil
  obtain ⟨rootNode, rootFound⟩ := wf.pageOf_of_mem List.mem_cons_self
  have rootLinks := wf.root_links
  rw [links_of_pageOf _ _ rootFound, Option.some_inj, Prod.mk.injEq] at rootLinks
  rw [rootFound]
  dsimp only
  rw [rootLinks.1]
  generalize lastDef : last (0 :: rest) = l at rootLinks
  have lastMember : l ∈ 0 :: rest := by
    rw [← lastDef, last, List.getLast?_eq_getLast_of_ne_nil (List.cons_ne_nil 0 rest)]
    exact List.getLast_mem _
  -- The last page, which is the root itself when that is alone.
  obtain ⟨lastNode, view₂, lastRun, lastFound, reads₂⟩ : ∃ lastNode view₂,
      (if (l != 0) = true then peekDirectory (.page root l) else pure (some rootNode)).exec base
        (peeked base view (.page root 0)) = some (some lastNode, view₂) ∧
      pageOf read root l = some lastNode ∧ Reads base view₂ read root (l :: 0 :: seen) := by
    by_cases isRoot : l = 0
    · subst isRoot
      exact ⟨rootNode, _, by simp, rootFound, reads₁.mono fun m member => by simpa using member⟩
    · obtain ⟨lastNode, lastFound⟩ := wf.pageOf_of_mem lastMember
      obtain ⟨peekRun, reads₂⟩ := reads₁.peek l
      exact ⟨lastNode, _, by simp [isRoot, peekRun, lastFound], lastFound, reads₂⟩
  rw [exec_bind, lastRun, Option.bind_some]
  dsimp only
  by_cases room : lastNode.indexes.length = ViewM.dirNodeMax
  swap
  · -- The last page has room for the entry.
    rw [if_pos (by simpa using room)]
    obtain ⟨view₃, run₃, reads₃⟩ := reads₂.update List.mem_cons_self (present_of_pageOf lastFound)
      { lastNode with indexes := lastNode.indexes ++ [x] }
    rw [exec_bind, run₃, Option.bind_some, exec_pure]
    subst lastDef
    obtain ⟨grown, keys⟩ := wellFormed_addEntry wf isNil lastFound room fresh
    refine ⟨_, view₃, rfl, .inl ⟨fun exhausted => room (by
      rw [← entriesOf_of_pageOf _ _ lastFound]
      exact exhausted.1), rfl, keys ▸ reads₃.leaves ((SameOutside.refl read).update _ _) grown, ?_⟩⟩
    simp [reads₃.sees, entriesOf]
  rw [if_neg (by simpa using room)]
  have bounded : l < 2 ^ 64 := wf.bounded l lastMember
  by_cases full : (l + 1) % 2 ^ 64 = 0
  · -- The last page is full and numbered 2^64 - 1: no page can follow it.
    rw [if_pos (by simpa using full), exec_pure]
    have atMax : l + 1 = 2 ^ 64 := by omega
    subst lastDef
    exact ⟨_, view₂, rfl, .inr ⟨⟨by rw [entriesOf_of_pageOf _ _ lastFound, room], atMax⟩, rfl,
      reads₂.coherent, reads₂.sees⟩⟩
  rw [if_neg (by simpa using full)]
  have fits : l + 1 < 2 ^ 64 := by omega
  -- A new page `l + 1` after the full one.
  obtain ⟨view₃, run₃, reads₃⟩ := reads₂.update List.mem_cons_self (present_of_pageOf lastFound)
    { lastNode with indexNext := l + 1 }
  obtain ⟨rootNode', rootFound'⟩ : ∃ node,
      pageOf (setPage read root l { lastNode with indexNext := l + 1 }) root 0 = some node := by
    by_cases isRoot : (0 : Nat) = l
    · exact ⟨{ lastNode with indexNext := l + 1 }, by simp [isRoot]⟩
    · exact ⟨rootNode, by simp [isRoot, rootFound]⟩
  obtain ⟨peekRun₄, reads₄⟩ := reads₃.peek 0
  obtain ⟨view₅, run₅, reads₅⟩ := reads₄.update List.mem_cons_self (present_of_pageOf rootFound')
    { rootNode' with indexPrevious := l + 1 }
  have absent : setPage (setPage read root l { lastNode with indexNext := l + 1 }) root 0
      { rootNode' with indexPrevious := l + 1 } (.page root (l + 1)) = none := by
    rw [setPage_of_ne _ root _ _ (by simp), setPage_of_ne _ root _ _ (by simp)]
    by_contra present
    have atMost := le_last wf.increasing (wf.onChain _ present)
    omega
  obtain ⟨view₆, run₆, reads₆⟩ := reads₅.insert absent
    { describe ⟨root, [], 0, if l + 1 != 1 then l + 1 - 1 else 0, none⟩ with indexes := [x] }
  rw [exec_bind, run₃, Option.bind_some, exec_bind, peekRun₄, Option.bind_some]
  dsimp only
  rw [rootFound']
  dsimp only
  rw [exec_bind, run₅, Option.bind_some, exec_bind, run₆, Option.bind_some, exec_pure]
  have before : (describe ⟨root, [], 0, if l + 1 != 1 then l + 1 - 1 else 0, none⟩).indexPrevious =
      l := by
    rw [(keeps _).1]
    by_cases isRoot : l = 0 <;> simp [isRoot]
  subst lastDef
  obtain ⟨grown, keys⟩ := wellFormed_addPage wf isNil lastFound fits fresh rootFound' before
    (keeps _).2
  refine ⟨_, view₆, rfl, .inl ⟨fun exhausted => absurd exhausted.2 (Nat.ne_of_lt fits), rfl, keys ▸ reads₆.leaves
    ((((SameOutside.refl read).update _ _).update _ _).update _ _) grown, ?_⟩⟩
  simp [reads₆.sees, entriesOf]

end running

/-- Adding to, deleting from and reading a well-formed directory. -/
theorem dirAdd_dirDelete_keep_wellFormed :
    (∀ (base : OpenView) (view : ApplyViewImpl) (root : DirRoot) (pages : List Nat) (x : Key)
        (describe : DirectoryNode → DirectoryNode),
      Coherent base view → WellFormed (visible base view) root pages →
      x ∉ entries (visible base view) root pages → KeepsLinks describe →
      ∃ result view', (dirAdd root x describe).exec base view = some (result, view') ∧
        ((¬ Exhausted (visible base view) root pages ∧ result.1 = tesSUCCESS ∧
            Leaves base view' (visible base view) root
              (entries (visible base view) root pages ++ [x]) ∧
            x ∈ entriesOf (visible base view') root result.2) ∨
          (Exhausted (visible base view) root pages ∧ result = (tecDIR_FULL, 0) ∧
            Coherent base view' ∧ visible base view' = visible base view))) ∧
    (∀ (base : OpenView) (view : ApplyViewImpl) (root : DirRoot) (pages : List Nat) (n : Nat)
        (x : Key) (keepRoot stable soft : Bool),
      Coherent base view → WellFormed (visible base view) root pages → n ∈ pages →
      x ∈ entriesOf (visible base view) root n →
      ∃ view' keys, (dirDelete keepRoot n root x stable soft).exec base view =
          some (tesSUCCESS, view') ∧
        Leaves base view' (visible base view) root keys ∧
        keys.Perm ((entries (visible base view) root pages).erase x) ∧
        (stable = true → keys = (entries (visible base view) root pages).erase x)) ∧
    (∀ (read : Key → Option SLE) (root : DirRoot) (pages : List Nat) (fuel : Nat),
      WellFormed read root pages → pages.length ≤ fuel →
      Visits read root fuel (cdirFirst read root fuel) (entries read root pages) ∧
        (entries read root pages).Nodup) ∧
    (∀ (σ : Type) (read : Key → Option SLE) (id : AccountID) (pages : List Nat) (fuel : Nat)
        (f : σ → Option SLE → σ) (state : σ),
      WellFormed read (.owner id) pages → pages.length ≤ fuel →
      forEachItem read id f state fuel =
        some ((entries read (.owner id) pages).foldl
          (fun state key => f state (readChild read key)) state)) :=
  ⟨fun _ _ _ _ _ _ coherent wf fresh keeps => dirAdd_spec (Reads.start coherent) wf fresh keeps,
    fun _ _ _ _ _ _ keepRoot stable soft coherent wf member holds =>
      dirDelete_spec (Reads.start coherent) wf member holds keepRoot stable soft,
    fun _ _ _ _ wf enough => ⟨visits_entries wf enough, wf.distinct⟩,
    fun _ _ _ _ _ f state wf enough => forEachItem_entries wf enough f state⟩

/-- Account 5's owner directory. -/
def exhaustedDir : DirRoot := .owner (AccountID.ofNat 5)

/-- The full last page of `exhaustedDir`: 32 offers of account 5. -/
def exhaustedPage : DirectoryNode :=
  ⟨exhaustedDir, (List.range ViewM.dirNodeMax).map (Key.offer (AccountID.ofNat 5)), 0, 0,
    some (AccountID.ofNat 5)⟩

/-- A ledger where `exhaustedDir` is an empty root page and page 2^64 - 1, its last page,
which is full. -/
def exhaustedLedger : OpenView :=
  ⟨(AList.singleton (.page exhaustedDir 0) (.directoryNode ⟨exhaustedDir, [], 2 ^ 64 - 1,
      2 ^ 64 - 1, some (AccountID.ofNat 5)⟩)).insert (.page exhaustedDir (2 ^ 64 - 1))
      (.directoryNode exhaustedPage),
    100000000, 0, [], 10, 0, true, ⟨10, 10, 200, 50⟩, ⟨true⟩⟩

theorem pageOf_exhaustedLedger (n : Nat) :
    pageOf exhaustedLedger.read exhaustedDir n =
      if n = 2 ^ 64 - 1 then some exhaustedPage
      else if n = 0 then some ⟨exhaustedDir, [], 2 ^ 64 - 1, 2 ^ 64 - 1, some (AccountID.ofNat 5)⟩
      else none := by
  -- The page number as a literal, as `simp` writes it.
  simp only [Nat.reducePow, Nat.reduceSub]
  by_cases last : n = 18446744073709551615
  · subst last
    simp [pageOf, OpenView.read, exhaustedLedger, AList.lookup_insert, SLE.directoryNode?]
  by_cases first : n = 0
  · subst first
    simp [pageOf, OpenView.read, exhaustedLedger, SLE.directoryNode?, AList.lookup,
      AList.singleton_entries]
  · simp [pageOf, OpenView.read, exhaustedLedger, last, first, AList.lookup,
      AList.singleton_entries]

/-- The directory of `exhaustedLedger` is well formed. -/
theorem wellFormed_exhaustedLedger :
    WellFormed exhaustedLedger.read exhaustedDir [0, 2 ^ 64 - 1] where
  rootFirst := by simp
  linked := by simp [LinkedFrom, links, pageOf_exhaustedLedger, last, exhaustedPage]
  increasing := by simp
  bounded := by simp
  onChain := fun n present => by
    by_contra outside
    simp only [List.mem_cons, List.not_mem_nil, or_false, not_or, Nat.reducePow,
      Nat.reduceSub] at outside
    apply present
    simp [OpenView.read, exhaustedLedger, outside.1, outside.2, AList.lookup,
      AList.singleton_entries]
  small := by simp [entriesOf, pageOf_exhaustedLedger, exhaustedPage, ViewM.dirNodeMax]
  distinct := by
    have keys : entries exhaustedLedger.read exhaustedDir [0, 2 ^ 64 - 1] =
        exhaustedPage.indexes := by
      simp [entriesOf, pageOf_exhaustedLedger]
    rw [keys]
    exact List.nodup_range.map fun _ _ same => by injection same

/-- The table of a fresh view over `exhaustedLedger`, before any run. -/
theorem reads_exhaustedLedger :
    Reads exhaustedLedger (.fresh .tapNONE) exhaustedLedger.read exhaustedDir [] :=
  ⟨coherent_fresh _ _, visible_fresh _ _, fun _ none => by cases none⟩

theorem offer_notMem_exhaustedLedger :
    Key.offer (AccountID.ofNat 5) 32 ∉ entries exhaustedLedger.read exhaustedDir [0, 2 ^ 64 - 1] := by
  simp [entriesOf, pageOf_exhaustedLedger, exhaustedPage, ViewM.dirNodeMax]

/-- `dirAdd` of a 33rd offer to the directory of `exhaustedLedger`, which is well formed
and lacks it, gives `tecDIR_FULL` and leaves what code reads as it was: the offer is not
added. -/
theorem dirAdd_exhausted_refuses :
    WellFormed exhaustedLedger.read exhaustedDir [0, 2 ^ 64 - 1] ∧
      Key.offer (AccountID.ofNat 5) 32 ∉ entries exhaustedLedger.read exhaustedDir [0, 2 ^ 64 - 1] ∧
      ∃ view', (dirAdd exhaustedDir (.offer (AccountID.ofNat 5) 32)
          (describeOwnerDir (AccountID.ofNat 5))).exec exhaustedLedger (.fresh .tapNONE) =
          some ((tecDIR_FULL, 0), view') ∧
        visible exhaustedLedger view' = exhaustedLedger.read := by
  have exhausted : Exhausted exhaustedLedger.read exhaustedDir [0, 2 ^ 64 - 1] := by
    simp [Exhausted, last, entriesOf, pageOf_exhaustedLedger, exhaustedPage]
  obtain ⟨result, view', run, added | ⟨-, refused, -, same⟩⟩ := dirAdd_spec reads_exhaustedLedger
    wellFormed_exhaustedLedger offer_notMem_exhaustedLedger fun _ => ⟨rfl, rfl⟩
  · exact absurd exhausted added.1
  · exact ⟨wellFormed_exhaustedLedger, offer_notMem_exhaustedLedger, view', refused ▸ run, same⟩

/-- A ledger where the chain of `exhaustedDir` runs 0 → 2 → 1: page 2 holds offer 40 and
page 1, the last, is full. -/
def unorderedLedger : OpenView :=
  ⟨((AList.singleton (.page exhaustedDir 0)
        (.directoryNode ⟨exhaustedDir, [], 2, 1, some (AccountID.ofNat 5)⟩)).insert
      (.page exhaustedDir 2)
        (.directoryNode ⟨exhaustedDir, [.offer (AccountID.ofNat 5) 40], 1, 0, some (AccountID.ofNat 5)⟩)).insert
      (.page exhaustedDir 1) (.directoryNode { exhaustedPage with indexNext := 0, indexPrevious := 2 }),
    100000000, 0, [], 10, 0, true, ⟨10, 10, 200, 50⟩, ⟨true⟩⟩

theorem read_unorderedLedger_of_lt {n : Nat} (far : 2 < n) :
    unorderedLedger.read (.page exhaustedDir n) = none := by
  have other : ∀ m ≤ 2, Key.page exhaustedDir n ≠ .page exhaustedDir m := fun m le same => by
    injection same with _ same
    omega
  rw [OpenView.read, unorderedLedger, AList.lookup_insert_ne (other 1 (by omega)),
    AList.lookup_insert_ne (other 2 (by omega))]
  simp [AList.lookup, AList.singleton_entries, other 0]

/-- Without increasing page numbers, `WellFormed` is not enough for `dirAdd`.  The chain
0 → 2 → 1 of `unorderedLedger` meets every other condition, and adding offer 32 opens page
1 + 1 = 2 over the page already there: `dirAdd` succeeds, and offer 40 is on no page left. -/
theorem dirAdd_unordered_chain_loses_entry :
    ((∀ n ∈ [0, 2, 1].head?, n = 0) ∧ LinkedFrom (links unorderedLedger.read exhaustedDir) 1 [0, 2, 1] ∧
      (∀ n ∈ [0, 2, 1], n < 2 ^ 64) ∧
      (∀ n, unorderedLedger.read (.page exhaustedDir n) ≠ none → n ∈ [0, 2, 1]) ∧
      (∀ n ∈ [0, 2, 1], (entriesOf unorderedLedger.read exhaustedDir n).length ≤ ViewM.dirNodeMax) ∧
      (entries unorderedLedger.read exhaustedDir [0, 2, 1]).Nodup ∧
      ¬ [0, 2, 1].Pairwise (· < ·)) ∧
    Key.offer (AccountID.ofNat 5) 32 ∉ entries unorderedLedger.read exhaustedDir [0, 2, 1] ∧
    ∃ view', (dirAdd exhaustedDir (.offer (AccountID.ofNat 5) 32)
        (describeOwnerDir (AccountID.ofNat 5))).exec unorderedLedger (.fresh .tapNONE) =
        some ((tesSUCCESS, 2), view') ∧
      ∀ n, Key.offer (AccountID.ofNat 5) 40 ∉ entriesOf (visible unorderedLedger view') exhaustedDir n := by
  -- The run records pages 0, 1 and 2 only, and none of them holds offer 40 any more.
  obtain ⟨view', ran, recorded, early⟩ : ∃ view', (dirAdd exhaustedDir (.offer (AccountID.ofNat 5) 32)
        (describeOwnerDir (AccountID.ofNat 5))).exec unorderedLedger (.fresh .tapNONE) =
        some ((tesSUCCESS, 2), view') ∧
      view'.items.items.keys ⊆ [.page exhaustedDir 0, .page exhaustedDir 1, .page exhaustedDir 2] ∧
      ∀ n ≤ 2, Key.offer (AccountID.ofNat 5) 40 ∉ entriesOf (visible unorderedLedger view') exhaustedDir n :=
    ⟨_, rfl, by decide, by decide⟩
  have onChain : ∀ n, unorderedLedger.read (.page exhaustedDir n) ≠ none → n ∈ [0, 2, 1] := by
    intro n present
    by_contra outside
    simp only [List.mem_cons, List.not_mem_nil, or_false, not_or] at outside
    exact present (read_unorderedLedger_of_lt (by omega))
  refine ⟨⟨by simp, ⟨by decide, by decide, by decide, trivial⟩, by simp, onChain, by decide, by decide,
    by decide⟩, by decide, view', ran, fun n => ?_⟩
  by_cases small : n ≤ 2
  · exact early n small
  -- A page past 2 is neither recorded by the run nor in the ledger.
  have unrecorded : view'.items.items.lookup (.page exhaustedDir n) = none := by
    rw [AList.lookup_eq_none]
    intro member
    have listed := recorded (AList.mem_keys.mpr member)
    simp only [List.mem_cons, List.not_mem_nil, or_false, Key.page.injEq, true_and] at listed
    omega
  have absent := read_unorderedLedger_of_lt (by omega : 2 < n)
  rw [OpenView.read] at absent
  simp [entriesOf, pageOf, visible, Overlay.read, unrecorded, absent]

/-- The directory operations on `exhaustedLedger`: adding a 33rd offer, deleting offer 0
from the last page, and reading the directory with fuel for its two pages. -/
theorem dirAdd_dirDelete_keep_wellFormed_exhausted :
    (∃ result view', (dirAdd exhaustedDir (.offer (AccountID.ofNat 5) 32)
        (describeOwnerDir (AccountID.ofNat 5))).exec exhaustedLedger (.fresh .tapNONE) =
        some (result, view') ∧
      ((¬ Exhausted (visible exhaustedLedger (.fresh .tapNONE)) exhaustedDir [0, 2 ^ 64 - 1] ∧
          result.1 = tesSUCCESS ∧
          Leaves exhaustedLedger view' (visible exhaustedLedger (.fresh .tapNONE)) exhaustedDir
            (entries (visible exhaustedLedger (.fresh .tapNONE)) exhaustedDir [0, 2 ^ 64 - 1] ++
              [.offer (AccountID.ofNat 5) 32]) ∧
          Key.offer (AccountID.ofNat 5) 32 ∈ entriesOf (visible exhaustedLedger view') exhaustedDir
            result.2) ∨
        (Exhausted (visible exhaustedLedger (.fresh .tapNONE)) exhaustedDir [0, 2 ^ 64 - 1] ∧
          result = (tecDIR_FULL, 0) ∧ Coherent exhaustedLedger view' ∧
          visible exhaustedLedger view' = visible exhaustedLedger (.fresh .tapNONE)))) ∧
    (∃ view' keys, (dirDelete false (2 ^ 64 - 1) exhaustedDir (.offer (AccountID.ofNat 5) 0) true
        false).exec exhaustedLedger (.fresh .tapNONE) = some (tesSUCCESS, view') ∧
      Leaves exhaustedLedger view' (visible exhaustedLedger (.fresh .tapNONE)) exhaustedDir keys ∧
      keys.Perm ((entries (visible exhaustedLedger (.fresh .tapNONE)) exhaustedDir
        [0, 2 ^ 64 - 1]).erase (.offer (AccountID.ofNat 5) 0)) ∧
      (true = true → keys = (entries (visible exhaustedLedger (.fresh .tapNONE)) exhaustedDir
        [0, 2 ^ 64 - 1]).erase (.offer (AccountID.ofNat 5) 0))) ∧
    (Visits exhaustedLedger.read exhaustedDir 2 (cdirFirst exhaustedLedger.read exhaustedDir 2)
        (entries exhaustedLedger.read exhaustedDir [0, 2 ^ 64 - 1]) ∧
      (entries exhaustedLedger.read exhaustedDir [0, 2 ^ 64 - 1]).Nodup) ∧
    forEachItem exhaustedLedger.read (AccountID.ofNat 5) (fun count _ => count + 1) 0 2 =
      some ((entries exhaustedLedger.read exhaustedDir [0, 2 ^ 64 - 1]).foldl
        (fun count key => (fun count _ => count + 1) count (readChild exhaustedLedger.read key)) 0) := by
  have wf : WellFormed (visible exhaustedLedger (.fresh .tapNONE)) exhaustedDir [0, 2 ^ 64 - 1] := by
    rw [visible_fresh]
    exact wellFormed_exhaustedLedger
  have holds : Key.offer (AccountID.ofNat 5) 0 ∈
      entriesOf (visible exhaustedLedger (.fresh .tapNONE)) exhaustedDir (2 ^ 64 - 1) := by
    simp [visible_fresh, entriesOf, pageOf_exhaustedLedger, exhaustedPage, ViewM.dirNodeMax]
  exact ⟨dirAdd_dirDelete_keep_wellFormed.1 _ _ _ _ _ _ (coherent_fresh _ _) wf
      (by rw [visible_fresh]; exact offer_notMem_exhaustedLedger) fun _ => ⟨rfl, rfl⟩,
    dirAdd_dirDelete_keep_wellFormed.2.1 _ _ _ _ _ _ false true false (coherent_fresh _ _) wf
      (by simp) holds,
    dirAdd_dirDelete_keep_wellFormed.2.2.1 _ _ _ _ wellFormed_exhaustedLedger (by simp),
    dirAdd_dirDelete_keep_wellFormed.2.2.2 Nat _ _ _ _ _ _ wellFormed_exhaustedLedger (by simp)⟩


end Directory

end RadardFormal.Ledger
