import FormLang.Proofs.Numeral
import FormLang.Proofs.Tree.Nodes
import FormLang.Tree.Evaluate

/-!
# `FormLang.Proofs.Tree.Reached` — the nodes that an evaluation comes to

Which nodes of a tree are evaluated does not depend on variables or values. The elements of a list that
is no command are, and so are the arguments of `print` and of arithmetic, and those of `set` behind a
name. The slots of `set` and `get` are not, nor are the arguments of an unknown command. What a tree can
do to variables is therefore written in it: the names that its evaluation binds and those that it looks
up are slots of nodes that it comes to. So is what cannot be evaluated, which only a host can build.

## Contents
- `Tree.reached`: the nodes that the evaluation of a tree comes to.
- `Tree.failure?`: the failure that a node itself causes.
- `Tree.setName?`, `Tree.getName?`: the name that a node itself binds or looks up.
- `Tree.boundNames`, `Tree.readNames`: the names that a tree binds and looks up.
- `mem_reachedAll`, `reachedForm_print` and its companions: the nodes that lists lead to.
- `visited`, `reachedForm_eq`: the elements of a list that are evaluated; `mem_reached_trans`.
-/

namespace FormLang
namespace Tree

/-! ## Nodes -/

mutual

/-- The nodes that the evaluation of the tree comes to, from left to right, each before those inside
it. -/
def reached : Tree → List Tree
  | .list ts => .list ts :: reachedForm ts
  | .number n => [.number n]
  | .text s => [.text s]
  | .name s => [.name s]
  | .error message => [.error message]
  | .foreign v => [.foreign v]

/-- The nodes that the evaluation of a list comes to inside it. -/
def reachedForm : List Tree → List Tree
  | [] => []
  | .name s :: args => match Command.ofName? s with
      | some .print | some (.arithmetic _) => reachedAll args
      | some .set => reachedBound args
      | some .get | none => []
  | t :: ts => reached t ++ reachedAll ts

/-- The nodes that the evaluation of trees one after the other comes to. -/
def reachedAll : List Tree → List Tree
  | [] => []
  | t :: ts => reached t ++ reachedAll ts

/-- The nodes that a binding to the given arguments comes to. -/
def reachedBound : List Tree → List Tree
  | [] | [_] => []
  | slot :: t :: ts => match slot.boundName? with
      | none => []
      | some _ => reached t ++ reachedAll ts

end

variable {t u : Tree} {ts : List Tree}

theorem mem_reachedAll : u ∈ reachedAll ts ↔ ∃ t ∈ ts, u ∈ t.reached := by
  induction ts with
  | nil => simp [reachedAll]
  | cons t ts ih => simp [reachedAll, ih]

theorem reachedAll_append (ts us : List Tree) :
    reachedAll (ts ++ us) = reachedAll ts ++ reachedAll us := by
  induction ts with
  | nil => rfl
  | cons t ts ih => rw [List.cons_append, reachedAll, reachedAll, ih, List.append_assoc]

theorem reached_subset_reachedAll (ht : t ∈ ts) : ∀ u ∈ t.reached, u ∈ reachedAll ts :=
  fun _ hu => mem_reachedAll.mpr ⟨t, ht, hu⟩

section Forms

variable {s : String} {op : Operation} {args : List Tree}

theorem reachedForm_print (h : Command.ofName? s = some .print) :
    reachedForm (.name s :: args) = reachedAll args := by
  simp only [reachedForm, h]

theorem reachedForm_arithmetic (h : Command.ofName? s = some (.arithmetic op)) :
    reachedForm (.name s :: args) = reachedAll args := by
  simp only [reachedForm, h]

theorem reachedForm_set (h : Command.ofName? s = some .set) :
    reachedForm (.name s :: args) = reachedBound args := by
  simp only [reachedForm, h]

theorem reachedForm_get (h : Command.ofName? s = some .get) : reachedForm (.name s :: args) = [] := by
  simp only [reachedForm, h]

theorem reachedForm_unknown (h : Command.ofName? s = none) : reachedForm (.name s :: args) = [] := by
  simp only [reachedForm, h]

/-- A list that begins with no name is evaluated element by element. -/
theorem reachedForm_of_not_name (ht : ∀ s, t ≠ .name s) (ts : List Tree) :
    reachedForm (t :: ts) = reachedAll (t :: ts) := by
  cases t with
  | name s => exact absurd rfl (ht s)
  | _ => rfl

end Forms

/-- The elements of a list that are evaluated when the list is. -/
def visited : List Tree → List Tree
  | [] => []
  | .name s :: args => match Command.ofName? s with
      | some .print | some (.arithmetic _) => args
      | some .set => match args with
          | [] => []
          | slot :: values => if slot.boundName?.isSome then values else []
      | some .get | none => []
  | t :: ts => t :: ts

section Visited

variable {s : String} {op : Operation} {args : List Tree}

theorem visited_print (h : Command.ofName? s = some .print) : visited (.name s :: args) = args := by
  simp only [visited, h]

theorem visited_arithmetic (h : Command.ofName? s = some (.arithmetic op)) :
    visited (.name s :: args) = args := by
  simp only [visited, h]

theorem visited_set {slot : Tree} {values : List Tree} (h : Command.ofName? s = some .set) :
    visited (.name s :: slot :: values) = if slot.boundName?.isSome then values else [] := by
  simp only [visited, h]

theorem visited_set_of_boundName? {slot : Tree} {values : List Tree} {x : String}
    (h : Command.ofName? s = some .set) (hx : slot.boundName? = some x) :
    visited (.name s :: slot :: values) = values := by
  rw [visited_set h, hx, Option.isSome_some, if_pos rfl]

theorem visited_of_not_name (ht : ∀ s, t ≠ .name s) (ts : List Tree) :
    visited (t :: ts) = t :: ts := by
  cases t with
  | name s => exact absurd rfl (ht s)
  | _ => rfl

end Visited

theorem reachedBound_cons (slot : Tree) (values : List Tree) :
    reachedBound (slot :: values) = reachedAll (if slot.boundName?.isSome then values else []) := by
  cases values with
  | nil => simp [reachedBound, reachedAll]
  | cons t ts =>
      rw [reachedBound]
      cases slot.boundName? <;> rfl

/-- **The evaluation of a list comes to the nodes of those elements that are evaluated.** -/
theorem reachedForm_eq (ts : List Tree) : reachedForm ts = reachedAll (visited ts) := by
  unfold visited
  split
  · rfl
  · next s args =>
      split
      · next hs => rw [reachedForm_print hs]
      · next hs => rw [reachedForm_arithmetic hs]
      · next hs =>
          rw [reachedForm_set hs]
          cases args with
          | nil => rfl
          | cons slot values => exact reachedBound_cons slot values
      · next hs => exact reachedForm_get hs
      · next hs => exact reachedForm_unknown hs
  · next t ts hname => exact reachedForm_of_not_name (fun s hs => hname s hs) ts

theorem mem_of_mem_visited (hu : u ∈ visited ts) : u ∈ ts := by
  unfold visited at hu
  split at hu
  · exact hu
  · next s args =>
      refine List.mem_cons_of_mem _ ?_
      split at hu
      · exact hu
      · exact hu
      · split at hu
        · exact hu
        · split at hu
          · exact List.mem_cons_of_mem _ hu
          · exact absurd hu List.not_mem_nil
      · exact absurd hu List.not_mem_nil
      · exact absurd hu List.not_mem_nil
  · exact hu

/-- The nodes of an element that is evaluated are nodes of the list. -/
theorem mem_reached_list {w : Tree} (ht : t ∈ visited ts) (hw : w ∈ t.reached) :
    w ∈ (list ts).reached := by
  rw [reached, reachedForm_eq]
  exact List.mem_cons_of_mem _ (reached_subset_reachedAll ht w hw)

/-- The nodes that the evaluation of a node comes to are those of the tree too. -/
theorem mem_reached_trans {w : Tree} (hu : u ∈ t.reached) (hw : w ∈ u.reached) : w ∈ t.reached := by
  induction t with
  | list ts ih =>
      rw [reached, List.mem_cons] at hu
      rcases hu with rfl | hu
      · exact hw
      · rw [reachedForm_eq] at hu
        obtain ⟨t, ht, hu⟩ := mem_reachedAll.mp hu
        exact mem_reached_list ht (ih t (mem_of_mem_visited ht) hu)
  | _ =>
      rw [reached, List.mem_singleton] at hu
      rwa [hu] at hw

/-! ## Failures -/

/-- The failure that a node causes itself: something that is no tree, and a `get` of a number of too many
digits. -/
def failure? : Tree → Option Failure
  | .foreign v => some (.ofForeign v)
  | .list (.name s :: .number n :: _) =>
      if Command.ofName? s = some .get ∧ Numeral.maxDigits < (Nat.toDigits 10 n.natAbs).length then
        some .tooManyDigits
      else none
  | _ => none

/-- Only something that is no tree fails, and a `get` of a number of too many digits. -/
theorem failure?_eq_some_iff {failure : Failure} :
    t.failure? = some failure ↔
      (∃ v, t = .foreign v ∧ failure = .ofForeign v) ∨
      ∃ s n rest, t = .list (.name s :: .number n :: rest) ∧ Command.ofName? s = some .get ∧
        Numeral.maxDigits < (Nat.toDigits 10 n.natAbs).length ∧ failure = .tooManyDigits := by
  constructor
  · intro h
    unfold failure? at h
    split at h
    · next v => exact .inl ⟨v, rfl, (Option.some.inj h).symm⟩
    · next s n rest =>
        split at h
        · next hget => exact .inr ⟨s, n, rest, rfl, hget.1, hget.2, (Option.some.inj h).symm⟩
        · cases h
    · cases h
  · rintro (⟨v, rfl, rfl⟩ | ⟨s, n, rest, rfl, hs, hn, rfl⟩)
    · rfl
    · rw [failure?, if_pos ⟨hs, hn⟩]

/-- Commands other than `get` do not fail themselves. -/
theorem failure?_of_ne_get {s : String} {args : List Tree} (hs : Command.ofName? s ≠ some .get) :
    (list (.name s :: args)).failure? = none := by
  rw [Option.eq_none_iff_forall_ne_some]
  intro failure h
  rcases failure?_eq_some_iff.mp h with ⟨v, hnode, -⟩ | ⟨s', n, rest, hnode, hs', -⟩
  · cases hnode
  · cases hnode
    exact hs hs'

/-- A `get` that does not fail has a slot that can be spelled, or that is no name. -/
theorem exists_readName?_of_failure? {s : String} {slot : Tree} {rest : List Tree}
    (hs : Command.ofName? s = some .get) (h : (list (.name s :: slot :: rest)).failure? = none) :
    ∃ name, slot.readName? = .ok name := by
  cases slot with
  | number n =>
      rw [failure?] at h
      split at h
      · cases h
      · next hn =>
          rw [readName?, Numeral.digitsOrFail_eq, if_neg fun hmany => hn ⟨hs, hmany⟩]
          exact ⟨_, rfl⟩
  | _ => exact ⟨_, rfl⟩

/-! ## Names -/

/-- The name that a node binds when its arguments have been evaluated. -/
def setName? : Tree → Option String
  | .list (.name s :: slot :: _ :: _) =>
      if Command.ofName? s = some .set then slot.boundName? else none
  | _ => none

/-- The name that a node looks up. -/
def getName? : Tree → Option String
  | .list (.name s :: slot :: _) =>
      if Command.ofName? s = some .get then slot.readName?.toOption.join else none
  | _ => none

theorem setName?_set {s x : String} {slot : Tree} {rest : List Tree}
    (hs : Command.ofName? s = some .set) (hx : slot.boundName? = some x) :
    (list (.name s :: slot :: t :: rest)).setName? = some x := by
  simp [setName?, hs, hx]

theorem getName?_get {s x : String} {slot : Tree} {rest : List Tree}
    (hs : Command.ofName? s = some .get) (hx : slot.readName? = .ok (some x)) :
    (list (.name s :: slot :: rest)).getName? = some x := by
  simp [getName?, hs, hx, Except.toOption]

/-- The names that the evaluation of the tree binds. -/
def boundNames (t : Tree) : List String := t.reached.filterMap setName?

/-- The names that the evaluation of the tree looks up. -/
def readNames (t : Tree) : List String := t.reached.filterMap getName?

end Tree
end FormLang
