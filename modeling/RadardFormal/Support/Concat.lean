import Mathlib.Data.List.Perm.Basic

/-!
# Concatenations of blocks

A list made by concatenating one block for each index of a list of distinct indices.
Changing one block changes the concatenation by that block, up to order; and a test that
only the elements of one block can pass filters or searches the concatenation as it does
that block.
-/

namespace RadardFormal.Support.Concat

variable {ι α : Type} [DecidableEq ι]

/-- Replacing block `b` by `y`: the new concatenation with the old block is a permutation
of the old one with the new block. -/
theorem flatMap_update_perm {l : List ι} (nodup : l.Nodup) {b : ι} (mem : b ∈ l)
    (f : ι → List α) (y : List α) :
    (l.flatMap (Function.update f b y) ++ f b).Perm (l.flatMap f ++ y) := by
  induction l with
  | nil => cases mem
  | cons head rest ih =>
    obtain ⟨fresh, restNodup⟩ := List.nodup_cons.mp nodup
    by_cases here : head = b
    · -- The block is the head; no later index is `b`.
      subst here
      have untouched : rest.flatMap (Function.update f head y) = rest.flatMap f :=
        List.flatMap_congr fun i member => by
          rw [Function.update_of_ne]
          rintro rfl
          exact fresh member
      simp only [List.flatMap_cons, Function.update_self, untouched, List.append_assoc]
      -- Both sides are the three blocks `y`, the rest and `f head`, in another order.
      calc List.Perm (y ++ (rest.flatMap f ++ f head)) ((rest.flatMap f ++ f head) ++ y) :=
            List.perm_append_comm
        List.Perm _ ((f head ++ rest.flatMap f) ++ y) := List.perm_append_comm.append_right y
        _ = f head ++ (rest.flatMap f ++ y) := List.append_assoc _ _ _
    · have later : b ∈ rest := (List.mem_cons.mp mem).resolve_left (Ne.symm here)
      simp only [List.flatMap_cons, Function.update_of_ne here, List.append_assoc]
      exact (ih restNodup later).append_left (f head)

/-- When no element outside block `b` passes `p`, filtering the concatenation filters `b`. -/
theorem filter_flatMap_of_only {l : List ι} (nodup : l.Nodup) {b : ι} (mem : b ∈ l)
    (f : ι → List α) (p : α → Bool) (others : ∀ i ∈ l, i ≠ b → ∀ x ∈ f i, p x = false) :
    (l.flatMap f).filter p = (f b).filter p := by
  induction l with
  | nil => cases mem
  | cons head rest ih =>
    obtain ⟨fresh, restNodup⟩ := List.nodup_cons.mp nodup
    have headFails : head ≠ b → (f head).filter p = [] := fun differs =>
      List.filter_eq_nil_iff.mpr fun x member => by
        simp [others head List.mem_cons_self differs x member]
    by_cases here : head = b
    · subst here
      have restFails : (rest.flatMap f).filter p = [] :=
        List.filter_eq_nil_iff.mpr fun x member => by
          obtain ⟨i, iMem, xMem⟩ := List.mem_flatMap.mp member
          simp [others i (List.mem_cons_of_mem _ iMem) (fun same => fresh (same ▸ iMem)) x xMem]
      simp [List.filter_append, restFails]
    · have later : b ∈ rest := (List.mem_cons.mp mem).resolve_left (Ne.symm here)
      rw [List.flatMap_cons, List.filter_append, headFails here, List.nil_append]
      exact ih restNodup later fun i iMem => others i (List.mem_cons_of_mem _ iMem)

/-- The search version: the first element passing `p` is found in block `b`. -/
theorem find?_flatMap_of_only {l : List ι} (nodup : l.Nodup) {b : ι} (mem : b ∈ l)
    (f : ι → List α) (p : α → Bool) (others : ∀ i ∈ l, i ≠ b → ∀ x ∈ f i, p x = false) :
    (l.flatMap f).find? p = (f b).find? p := by
  rw [← List.head?_filter, ← List.head?_filter, filter_flatMap_of_only nodup mem f p others]

omit [DecidableEq ι] in
/-- Blocks that each hold an element, for the indices that pass `p`, make the concatenation
at least as long as there are such indices. -/
theorem countP_le_length_flatMap (l : List ι) (f : ι → List α) (p : ι → Bool)
    (filled : ∀ i ∈ l, p i = true → 1 ≤ (f i).length) : l.countP p ≤ (l.flatMap f).length := by
  induction l with
  | nil => simp
  | cons head rest ih =>
    have restBound := ih fun i member => filled i (List.mem_cons_of_mem _ member)
    rw [List.countP_cons, List.flatMap_cons, List.length_append]
    split
    · have headBound := filled head List.mem_cons_self ‹_›
      omega
    · omega

omit [DecidableEq ι] in
/-- The blocks of the indices that pass `p` are the blocks of all indices, emptied where `p`
fails. -/
theorem flatMap_filter (l : List ι) (g : ι → List α) (p : ι → Bool) :
    (l.filter p).flatMap g = l.flatMap fun i => if p i then g i else [] := by
  induction l with
  | nil => rfl
  | cons head rest ih =>
    by_cases passes : p head <;> simp [passes, ih]

omit [DecidableEq ι] in
/-- Two concatenations over the same indices, joined, are the concatenation of the joined
blocks, up to order. -/
theorem flatMap_append_flatMap_perm (l : List ι) (f g : ι → List α) :
    (l.flatMap f ++ l.flatMap g).Perm (l.flatMap fun i => f i ++ g i) := by
  induction l with
  | nil => exact List.Perm.refl _
  | cons head rest ih =>
    simp only [List.flatMap_cons, List.append_assoc]
    refine List.Perm.append_left (f head) ?_
    calc List.Perm (rest.flatMap f ++ (g head ++ rest.flatMap g))
          (g head ++ (rest.flatMap f ++ rest.flatMap g)) := List.perm_append_comm_assoc _ _ _
      List.Perm _ _ := ih.append_left _

omit [DecidableEq ι] in
/-- The blocks of every index, followed by the blocks of the indices that pass `p` in reverse
order, are the concatenation of each index's two blocks, up to order. -/
theorem flatMap_append_filter_reverse_perm (l : List ι) (f g : ι → List α) (p : ι → Bool) :
    (l.flatMap f ++ (l.filter p).reverse.flatMap g).Perm
      (l.flatMap fun i => f i ++ if p i then g i else []) := by
  have reversed : ((l.filter p).reverse.flatMap g).Perm ((l.filter p).flatMap g) :=
    (List.reverse_perm _).flatMap_right g
  refine (reversed.append_left _).trans ?_
  rw [flatMap_filter]
  exact flatMap_append_flatMap_perm l f _

section blocks

variable {β : Type}

/-- Appending a block for each index in turn appends their concatenation. -/
theorem foldl_append_eq_flatMap (l : List β) (f : β → List α) (s : List α) :
    l.foldl (fun s b => s ++ f b) s = s ++ l.flatMap f := by
  induction l generalizing s with
  | nil => simp
  | cons head rest ih => rw [List.foldl_cons, ih, List.flatMap_cons, List.append_assoc]

theorem length_flatMap_of_sized {l : List β} {f : β → List α} {w : Nat} (sized : ∀ b ∈ l, (f b).length = w) :
    (l.flatMap f).length = l.length * w := by
  induction l with
  | nil => simp
  | cons head rest ih =>
    rw [List.flatMap_cons, List.length_append, sized head List.mem_cons_self,
      ih fun b member => sized b (List.mem_cons_of_mem head member), List.length_cons, Nat.succ_mul, Nat.add_comm]

/-- In a concatenation of blocks of one width `w`, block `k` is the `w` elements from `k * w`. -/
theorem take_drop_flatMap {l : List β} {f : β → List α} {w : Nat} (sized : ∀ b ∈ l, (f b).length = w) :
    ∀ {k : Nat} (inside : k < l.length), ((l.flatMap f).drop (k * w)).take w = f l[k] := by
  induction l with
  | nil => intro k inside; cases inside
  | cons head rest ih =>
    have headSized := sized head List.mem_cons_self
    intro k inside
    cases k with
    | zero => rw [Nat.zero_mul, List.drop_zero, List.flatMap_cons, List.take_left' headSized, List.getElem_cons_zero]
    | succ k =>
      -- the head's block is passed over first
      rw [List.flatMap_cons, Nat.succ_mul, Nat.add_comm, ← List.drop_drop, List.drop_left' headSized,
        List.getElem_cons_succ]
      exact ih (fun b member => sized b (List.mem_cons_of_mem head member)) (by simpa using inside)

end blocks

end RadardFormal.Support.Concat
