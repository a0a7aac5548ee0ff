import Mathlib.Data.List.Basic

/-!
# Chains of numbered nodes

Nodes are numbered, and each names the node before it and the node after it, with `0`
standing for no node after.  `link n` is what node `n` names, or `none` for a number with
no node.  `LinkedFrom link prev nodes` says that `nodes`, in this order, is such a chain:
the first names `prev` before it, each next one names the one before it, and the last
names no node after it.

The lemmas are what a chain needs when one of its nodes is read, one is added after the
last, or one is unlinked from between two others.
-/

set_option autoImplicit false

namespace RadardFormal.Support

/-- `nodes` is a chain under `link`, its first node naming `prev` before it. -/
def LinkedFrom (link : Nat → Option (Nat × Nat)) : Nat → List Nat → Prop
  | _, [] => True
  | prev, n :: rest => link n = some (prev, rest.head?.getD 0) ∧ LinkedFrom link n rest

namespace LinkedFrom

variable {link link' : Nat → Option (Nat × Nat)}

@[simp] theorem nil (prev : Nat) : LinkedFrom link prev [] := trivial

@[simp] theorem cons_iff {prev n : Nat} {rest : List Nat} :
    LinkedFrom link prev (n :: rest) ↔
      link n = some (prev, rest.head?.getD 0) ∧ LinkedFrom link n rest := Iff.rfl

/-- A chain depends on `link` only at its own nodes. -/
theorem congr : ∀ {prev : Nat} {nodes : List Nat}, (∀ n ∈ nodes, link' n = link n) →
    LinkedFrom link prev nodes → LinkedFrom link' prev nodes
  | _, [], _, _ => trivial
  | _, n :: _, same, ⟨here, later⟩ =>
    ⟨(same n List.mem_cons_self).trans here,
      congr (fun m member => same m (List.mem_cons_of_mem _ member)) later⟩

/-- What a node of the chain names: the node before it, or `prev` for the first, and the
node after it, or `0` for the last. -/
theorem link_of_append : ∀ {prev : Nat} {pre : List Nat} {n : Nat} {post : List Nat},
    LinkedFrom link prev (pre ++ n :: post) →
      link n = some (pre.getLast?.getD prev, post.head?.getD 0)
  | _, [], _, _, ⟨here, _⟩ => here
  | _, a :: pre, _, _, ⟨_, later⟩ => by
    rw [link_of_append later, List.getLast?_cons]
    rfl

/-- A node added after the last one, which now names it. -/
theorem snoc : ∀ {prev : Nat} {pre : List Nat} {last added : Nat},
    LinkedFrom link prev (pre ++ [last]) → (∀ n ∈ pre, link' n = link n) →
    link' last = some (pre.getLast?.getD prev, added) → link' added = some (last, 0) →
    LinkedFrom link' prev (pre ++ [last, added])
  | _, [], _, _, _, _, atLast, atAdded => ⟨atLast, atAdded, trivial⟩
  | _, a :: pre, _, _, ⟨here, later⟩, same, atLast, atAdded => by
    refine ⟨?_, snoc later (fun n member => same n (List.mem_cons_of_mem _ member)) ?_ atAdded⟩
    · rw [same a List.mem_cons_self, here]
      cases pre <;> rfl
    · rw [atLast, List.getLast?_cons]
      rfl

/-- A node unlinked from between two others, which now name each other. -/
theorem splice : ∀ {prev : Nat} {pre : List Nat} {a c d : Nat} {post : List Nat},
    LinkedFrom link prev (pre ++ a :: c :: d :: post) → (∀ n ∈ pre ++ post, link' n = link n) →
    link' a = some (pre.getLast?.getD prev, d) → link' d = some (a, post.head?.getD 0) →
    LinkedFrom link' prev (pre ++ a :: d :: post)
  | _, [], _, _, _, _, ⟨_, _, _, later⟩, same, atA, atD => ⟨atA, atD, congr same later⟩
  | _, b :: pre, _, _, _, _, ⟨here, later⟩, same, atA, atD => by
    refine ⟨?_, splice later (fun n member => same n (List.mem_cons_of_mem _ member)) ?_ atD⟩
    · rw [same b List.mem_cons_self, here]
      cases pre <;> rfl
    · rw [atA, List.getLast?_cons]
      rfl

end LinkedFrom

end RadardFormal.Support
