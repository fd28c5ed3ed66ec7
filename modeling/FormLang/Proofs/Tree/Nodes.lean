import FormLang.Tree.Parse

/-!
# `FormLang.Proofs.Tree.Nodes` — induction on trees and what holds at their nodes

The properties of trees that the other modules speak of are of two kinds: something holds of every
node that is no list, or lists are nested no deeper than so many levels.

## Contents
- `Tree.induct`: induction on trees, with all elements of a list at hand.
- `Tree.Leaves`: a property of all nodes that are no lists.
- `Tree.depth`: the nesting of lists.
- `Tree.IsAtom`: what a single token can stand for.
-/

namespace FormLang
namespace Tree

/-- **Induction on trees.** A list comes with the hypothesis for each of its elements. -/
@[elab_as_elim, induction_eliminator]
theorem induct {motive : Tree → Prop}
    (number : ∀ n, motive (.number n)) (text : ∀ s, motive (.text s))
    (name : ∀ s, motive (.name s))
    (list : ∀ ts, (∀ t ∈ ts, motive t) → motive (.list ts))
    (error : ∀ message, motive (.error message)) (foreign : ∀ v, motive (.foreign v))
    (t : Tree) : motive t :=
  @Tree.rec motive (fun ts => ∀ t ∈ ts, motive t) number text name list error foreign
    (fun _ h => absurd h (by simp))
    (fun _ _ ht hts _ hu => by
      rcases List.mem_cons.mp hu with rfl | hu
      · exact ht
      · exact hts _ hu)
    t

/-! ## Nodes that are no lists -/

mutual

/-- Every node of the tree that is no list satisfies `p`. -/
def Leaves (p : Tree → Prop) : Tree → Prop
  | .list ts => LeavesAll p ts
  | .number n => p (.number n)
  | .text s => p (.text s)
  | .name s => p (.name s)
  | .error message => p (.error message)
  | .foreign v => p (.foreign v)

/-- Every node of the trees that is no list satisfies `p`. -/
def LeavesAll (p : Tree → Prop) : List Tree → Prop
  | [] => True
  | t :: ts => Leaves p t ∧ LeavesAll p ts

end

variable {p q : Tree → Prop}

theorem leavesAll_iff {ts : List Tree} : LeavesAll p ts ↔ ∀ t ∈ ts, t.Leaves p := by
  induction ts with
  | nil => simp [LeavesAll]
  | cons t ts ih => simp [LeavesAll, ih]

@[simp] theorem leaves_list {ts : List Tree} : (list ts).Leaves p ↔ ∀ t ∈ ts, t.Leaves p := by
  rw [Leaves, leavesAll_iff]

/-- A weaker property holds at the same nodes. -/
theorem Leaves.imp (h : ∀ t, p t → q t) {t : Tree} (ht : t.Leaves p) : t.Leaves q := by
  induction t with
  | list ts ih =>
      rw [leaves_list] at ht ⊢
      exact fun t hmem => ih t hmem (ht t hmem)
  | _ => exact h _ ht

/-- Two properties of the nodes hold together. -/
theorem Leaves.and {t : Tree} (hp : t.Leaves p) (hq : t.Leaves q) :
    t.Leaves fun u => p u ∧ q u := by
  induction t with
  | list ts ih =>
      rw [leaves_list] at hp hq ⊢
      exact fun t hmem => ih t hmem (hp t hmem) (hq t hmem)
  | _ => exact ⟨hp, hq⟩

mutual

/-- Decides a property of the nodes that are no lists. -/
def decLeaves [DecidablePred p] : (t : Tree) → Decidable (t.Leaves p)
  | .list ts => decLeavesAll ts
  | .number n => inferInstanceAs (Decidable (p (.number n)))
  | .text s => inferInstanceAs (Decidable (p (.text s)))
  | .name s => inferInstanceAs (Decidable (p (.name s)))
  | .error message => inferInstanceAs (Decidable (p (.error message)))
  | .foreign v => inferInstanceAs (Decidable (p (.foreign v)))

/-- Decides a property of the nodes of trees that are no lists. -/
def decLeavesAll [DecidablePred p] : (ts : List Tree) → Decidable (LeavesAll p ts)
  | [] => isTrue trivial
  | t :: ts => @instDecidableAnd _ _ (decLeaves t) (decLeavesAll ts)

end

instance [DecidablePred p] (t : Tree) : Decidable (t.Leaves p) := decLeaves t

/-- A tree that stands for a single token: a number, a text or a name. -/
def IsAtom : Tree → Prop
  | .number _ | .text _ | .name _ => True
  | .list _ | .error _ | .foreign _ => False

instance : DecidablePred IsAtom
  | .number _ | .text _ | .name _ => isTrue trivial
  | .list _ | .error _ | .foreign _ => isFalse id

/-! ## Nesting -/

mutual

/-- How deep lists are nested in the tree, the outermost list being the first level. -/
def depth : Tree → Nat
  | .list ts => depthAll ts + 1
  | .number _ | .text _ | .name _ | .error _ | .foreign _ => 0

/-- How deep lists are nested in the trees. -/
def depthAll : List Tree → Nat
  | [] => 0
  | t :: ts => max (depth t) (depthAll ts)

end

theorem depthAll_le_iff {ts : List Tree} {k : Nat} : depthAll ts ≤ k ↔ ∀ t ∈ ts, t.depth ≤ k := by
  induction ts with
  | nil => simp [depthAll]
  | cons t ts ih => rw [depthAll, Nat.max_le, ih, List.forall_mem_cons]

/-- A list adds one level to its elements. -/
theorem depth_list_le_iff {ts : List Tree} {k : Nat} :
    (list ts).depth ≤ k + 1 ↔ ∀ t ∈ ts, t.depth ≤ k := by
  rw [depth, Nat.add_le_add_iff_right, depthAll_le_iff]

/-- A list stands one level above its elements. -/
theorem depth_list_add_le {ts : List Tree} {level k : Nat} (hlevel : level < k)
    (h : ∀ t ∈ ts, t.depth + (level + 1) ≤ k) : (list ts).depth + level ≤ k := by
  have hdepth : (list ts).depth ≤ k - (level + 1) + 1 :=
    depth_list_le_iff.mpr fun t ht => Nat.le_sub_of_add_le (h t ht)
  omega

end Tree
end FormLang
