import FormLang.Proofs.Session
import FormLang.Proofs.Tree.Nesting
import FormLang.Proofs.Tree.Reread

/-!
# `FormLang.Proofs.Display` — data that is displayed reads back

A list that a program shows can be a program itself: put into parentheses its text is that of a tree, with
names in the places of texts. This tree is no command as long as no list in it begins with a name, and
then it is worth the very list, in whatever variables. The argument has one lemma for each stage, by
induction on the data: its text is that of its tree (`render_toTree`), which can be read, as deep as the
data is nested (`leaves_toTree`, `depth_toTree`), and is evaluated to the data (`evaluate_toTree`).

## Contents
- `Value.IsData`: numbers, words, and lists of these that do not begin with a word.
- `Value.toTree`: the tree that the text of data is read as.
- `render_toTree`, `leaves_toTree`, `depth_toTree`, `evaluate_toTree`: what holds of this tree.
- `Session.run_display`: data that is displayed and run.
-/

namespace FormLang
namespace Value

/-- Data that a program can hold: a whole number that is not negative and has not too many digits, a text
that is a word, or a list of data that begins with no text. -/
inductive IsData : Value → Prop where
  | int {n : Int} (nonneg : 0 ≤ n) (short : n.natAbs < Numeral.limit) : IsData (.int n)
  | word {s : String} (isWord : Piece.IsWord s.toList) : IsData (.text s)
  | list {vs : List Value} (first : ∀ v ∈ vs.head?, v.isText = false) (elements : ∀ v ∈ vs, IsData v) :
      IsData (.list vs)

/-- A list of data may begin with a number or with a list. -/
theorem IsData.cons {v : Value} {vs : List Value} (first : v.isText = false)
    (elements : ∀ w ∈ v :: vs, w.IsData) : (Value.list (v :: vs)).IsData := by
  refine .list ?_ elements
  intro w hw
  rwa [← Option.some.inj hw]

mutual

/-- The tree of data. Whatever a program cannot hold is foreign to it. -/
def toTree : Value → Tree
  | .number (.int n) => .number n
  | .text s => .name s
  | .list vs => .list (toTrees vs)
  | .number (.float x) => .foreign (.float x)
  | .flag b => .foreign (.flag b)
  | .absent => .foreign .absent

/-- The trees of the elements of a list. -/
def toTrees : List Value → List Tree
  | [] => []
  | v :: vs => toTree v :: toTrees vs

end

theorem toTrees_eq_map (vs : List Value) : toTrees vs = vs.map toTree := by
  induction vs with
  | nil => rfl
  | cons v vs ih => rw [toTrees, ih, List.map_cons]

variable {v : Value} {vs : List Value}

/-! ## The text of data -/

theorem renderAll_toTrees (h : ∀ v ∈ vs, v.toTree.render = .ok (v.displayIn true)) :
    Tree.renderAll (toTrees vs) = .ok (displayAll vs) := by
  induction vs with
  | nil => rfl
  | cons v vs ih =>
      rw [toTrees, Tree.renderAll, h v List.mem_cons_self,
        ih fun w hw => h w (List.mem_cons_of_mem v hw)]
      rfl

/-- **The text of data inside a list is the text of its tree.** -/
theorem render_toTree (h : v.IsData) : v.toTree.render = .ok (v.displayIn true) := by
  induction h with
  | @int n _ short =>
      have hdigits : Numeral.decimal? n = some (Numeral.decimal n) := by
        unfold Numeral.decimal?
        exact if_pos short
      rw [toTree, Tree.render, Numeral.digitsOrFail_of_lt short, displayIn, Number.display,
        Number.displayInt, hdigits]
      rfl
  | word _ => rfl
  | list _ _ ih =>
      rw [toTree, Tree.render, renderAll_toTrees ih]
      rfl

/-! ## The tree of data -/

/-- The tree of data can be written. -/
theorem leaves_toTree (h : v.IsData) : v.toTree.Leaves Tree.IsWritten := by
  induction h with
  | int nonneg short => exact ⟨nonneg, short⟩
  | word isWord => exact isWord
  | list _ _ ih =>
      rw [toTree, Tree.leaves_list, toTrees_eq_map]
      exact List.forall_mem_map.mpr ih

theorem depthAll_toTrees (h : ∀ v ∈ vs, v.toTree.depth = v.depth) :
    Tree.depthAll (toTrees vs) = depthAll vs := by
  induction vs with
  | nil => rfl
  | cons v vs ih =>
      rw [toTrees, Tree.depthAll, depthAll, h v List.mem_cons_self,
        ih fun w hw => h w (List.mem_cons_of_mem v hw)]

/-- A tree is nested as deep as its data. -/
theorem depth_toTree (h : v.IsData) : v.toTree.depth = v.depth := by
  induction h with
  | int _ _ => rfl
  | word _ => rfl
  | list _ _ ih => rw [toTree, Tree.depth, depth, depthAll_toTrees ih]

/-! ## The value of the tree -/

/-- Only a text is written as a name. -/
theorem toTree_ne_name (h : v.isText = false) (s : String) : v.toTree ≠ .name s := by
  cases v with
  | text r => cases h
  | number n => cases n <;> exact fun heq => by cases heq
  | _ => exact fun heq => by cases heq

theorem evaluateAll_toTrees (h : ∀ v ∈ vs, v.toTree.evaluate = pure v) :
    Tree.evaluateAll (toTrees vs) = pure vs := by
  induction vs with
  | nil => rfl
  | cons v vs ih =>
      rw [toTrees, Tree.evaluateAll, h v List.mem_cons_self,
        ih fun w hw => h w (List.mem_cons_of_mem v hw), pure_bind, map_pure]

/-- **The tree of data is worth the data**, and its evaluation does nothing. -/
theorem evaluate_toTree (h : v.IsData) : v.toTree.evaluate = pure v := by
  induction h with
  | int _ _ => rfl
  | word _ => rfl
  | @list vs first _ ih =>
      have hform : Tree.evaluateForm (toTrees vs) = pure vs := by
        cases vs with
        | nil => rfl
        | cons v vs =>
            -- the list is no command, since its first element is no text
            have hname := toTree_ne_name (first v rfl)
            rw [toTrees, Tree.evaluateForm_of_not_name hname]
            exact evaluateAll_toTrees ih
      rw [toTree, Tree.evaluate, hform, map_pure]

end Value

namespace Session

open FormLang.Tree

/-- **Data that is displayed reads back.** Let a list be made of whole numbers that are not negative and
have not too many digits, of words, and of such lists, none of which begins with a word, and let lists be
nested in it no deeper than a program may be. Its text in parentheses, run from whatever variables with
nothing shown besides, has this list as its value, reports nothing, and leaves the variables as they
are. -/
theorem run_display {options : Options} (htokens : options.showTokens = false)
    (htree : options.showTree = false) {vs : List Value} (h : (Value.list vs).IsData)
    (hdepth : (Value.list vs).depth ≤ maxDepth) (e : Env) :
    (run options ("(" ++ (Value.list vs).display ++ ")")).run e = ⟨.ok (.list vs), e, []⟩ := by
  have hwritten : (list (Value.toTrees vs)).Leaves IsWritten := Value.leaves_toTree h
  have hnested : (list (Value.toTrees vs)).depth ≤ maxDepth :=
    Nat.le_trans (Nat.le_of_eq (Value.depth_toTree h)) hdepth
  have htext : (list (Value.toTrees vs)).source = "(" ++ (Value.list vs).display ++ ")" :=
    Except.ok.inj ((render_source hwritten).symm.trans (Value.render_toTree h))
  have hevaluate : (list (Value.toTrees vs)).evaluate = pure (.list vs) := Value.evaluate_toTree h
  rw [← htext, run_quiet htokens htree, ofSource_source hwritten hnested, hevaluate]
  rfl

/-- The greatest number that can be written behind an empty list, and the name of a command behind a list
of one. -/
def shown : List Value :=
  [.list [], .int (Numeral.limit - 1 : Nat), .list [.list [.int 0], .text "print"], .text "x1"]

theorem run_display_shown :
    ({} : Options).showTokens = false ∧ ({} : Options).showTree = false ∧
    (Value.list shown).IsData ∧ (Value.list shown).depth ≤ maxDepth ∧
    (run {} ("(" ++ (Value.list shown).display ++ ")")).run (Env.empty.bind "x1" .absent)
      = ⟨.ok (.list shown), Env.empty.bind "x1" .absent, []⟩ := by
  have hgreatest : (Value.int (Numeral.limit - 1 : Nat)).IsData :=
    .int (Int.natCast_nonneg _) (Nat.sub_one_lt Numeral.limit_pos.ne')
  have hzero : (Value.int 0).IsData := .int (Int.le_refl 0) Numeral.limit_pos
  have hprint : (Value.text "print").IsData := .word ⟨rfl, List.all_eq_true.mp rfl⟩
  have hword : (Value.text "x1").IsData := .word ⟨rfl, List.all_eq_true.mp rfl⟩
  have hnil : ∀ v ∈ ([] : List Value), v.IsData := fun _ hv => absurd hv List.not_mem_nil
  have hempty : (Value.list []).IsData := .list (fun _ hv => by cases hv) hnil
  have hone : (Value.list [.int 0]).IsData := .cons rfl (List.forall_mem_cons.mpr ⟨hzero, hnil⟩)
  have hcommand : (Value.list [.list [.int 0], .text "print"]).IsData := by
    refine .cons rfl ?_
    simp only [List.forall_mem_cons]
    exact ⟨hone, hprint, hnil⟩
  have hdata : (Value.list shown).IsData := by
    refine .cons rfl ?_
    simp only [List.forall_mem_cons]
    exact ⟨hempty, hgreatest, hcommand, hword, hnil⟩
  have hdepth : (Value.list shown).depth ≤ maxDepth := by decide
  exact ⟨rfl, rfl, hdata, hdepth, run_display rfl rfl hdata hdepth _⟩

end Session
end FormLang
