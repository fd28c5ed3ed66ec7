import FormLang.Proofs.Tree.Reader

/-!
# `FormLang.Proofs.Tree.Descent` — programs read by recursive descent

The grammar suggests another reader than `Tree.build`: a list inside a list is read by a call that
returns where the list ends, and all calls share a position among the tokens. Nothing in it says that
this comes to an end. The position is never moved past the end of the program, and where no element
begins a call for an element does not move it at all. `Descent.program` is that reader with a bound on
its steps. No call looks beyond the tokens, or asks for an element where none begins, and a number of
steps that depends on the length of the program alone is enough. So it reads the same trees.

## Contents
- `Descent.passOver`, `Descent.element`, `Descent.list`, `Descent.program`: the reader by positions.
- `passOver_reads`, `element_reads`, `list_reads`: what a call reads, and what is left to `Tree.build`
  after it.
- `program_eq`: both readers agree on every program.
- `Tree.remarks`: the remarks in a tree with their levels.
- `parse_wellFormed`: the shape of the trees.
-/

namespace FormLang
namespace Descent

open FormLang.Tree

/-! ## The reader by positions -/

/-- The lexeme at a position, if the position is not beyond the tokens. -/
def lexemeAt (ts : List Token) (pos : Nat) : Option Lexeme := ts[pos]?.map Token.lexeme

/-- What a call has read, and the position where it left off. -/
structure Reading where
  tree : Tree
  next : Nat

/-- The position after a list that is passed over, `level` parentheses of which are open. The end of the
program is not passed. There is no such position if the steps run out or the tokens do. -/
def passOver (ts : List Token) : (steps level pos : Nat) → Option Nat
  | 0, _, _ => none
  | _ + 1, 0, pos => some pos
  | steps + 1, level + 1, pos => match lexemeAt ts pos with
      | none => none
      | some .eof => some pos
      | some .lparen => passOver ts steps (level + 2) (pos + 1)
      | some .rparen => passOver ts steps level (pos + 1)
      | some (.number _) | some (.text _) | some (.name _) => passOver ts steps (level + 1) (pos + 1)

mutual

/-- Reads an element of a list that is nested `depth` deep. What a token leads to with which no element
begins is up to `stray`. -/
def element (stray : Nat → Option Reading) (ts : List Token) :
    (steps depth pos : Nat) → Option Reading
  | 0, _, _ => none
  | steps + 1, depth, pos => match lexemeAt ts pos with
      | none => none
      | some .lparen =>
          if maxDepth ≤ depth then
            (passOver ts steps 1 (pos + 1)).map fun next => ⟨Tree.tooDeep, next⟩
          else list stray ts steps (depth + 1) [] (pos + 1)
      | some (.number n) => some ⟨.number n, pos + 1⟩
      | some (.text s) => some ⟨.text s, pos + 1⟩
      | some (.name s) => some ⟨.name s, pos + 1⟩
      | some .rparen | some .eof => stray pos

/-- Reads the rest of a list that is nested `depth` deep. `elements` holds what was read of it before,
last first. -/
def list (stray : Nat → Option Reading) (ts : List Token) :
    (steps depth : Nat) → (elements : List Tree) → (pos : Nat) → Option Reading
  | 0, _, _, _ => none
  | steps + 1, depth, elements, pos => match lexemeAt ts pos with
      | none => none
      | some .rparen => some ⟨.list elements.reverse, pos + 1⟩
      | some .eof => some ⟨Tree.unterminated, pos⟩
      | some .lparen | some (.number _) | some (.text _) | some (.name _) =>
          (element stray ts steps depth pos).bind fun r =>
            list stray ts steps depth (r.tree :: elements) r.next

end

/-- The tokens of a program with an end, which is put behind them if the last of them is none. -/
def ended (ts : List Token) : List Token :=
  match ts.getLast? with
  | none => [⟨.eof, 1⟩]
  | some last => if last.lexeme = .eof then ts else ts ++ [⟨.eof, last.line⟩]

/-- Reads a program, with so many steps for a call and the calls inside it. A parenthesis at its
beginning opens the outermost list. -/
def program (stray : Nat → Option Reading) (ts : List Token) (steps : Nat) : Option Parse :=
  (lexemeAt (ended ts) 0).bind fun first =>
    if first = .lparen then
      (list stray (ended ts) steps 1 [] 1).map fun r => ⟨r.tree, []⟩
    else
      (list stray (ended ts) steps 1 [] 0).map fun r => ⟨r.tree, [.missingParen]⟩

/-! ## Tokens with an end -/

/-- The last token is the end of the program. -/
def HasEnd (ts : List Token) : Prop := ts.getLast?.map Token.lexeme = some .eof

variable {stray : Nat → Option Reading} {ts : List Token} {x : Lexeme}
  {steps depth pos level k : Nat} {inner elements : List Tree} {outer : List (List Tree)}

theorem lexemeAt_eq {t : Token} (ht : ts[pos]? = some t) : lexemeAt ts pos = some t.lexeme := by
  rw [lexemeAt, ht, Option.map_some]

theorem drop_eq_cons {t : Token} (ht : ts[pos]? = some t) : ts.drop pos = t :: ts.drop (pos + 1) := by
  obtain ⟨hpos, rfl⟩ := List.getElem?_eq_some_iff.mp ht
  exact List.drop_eq_getElem_cons hpos

/-- Behind a token that is no end there is another one. -/
theorem succ_lt_length {t : Token} (hend : HasEnd ts) (ht : ts[pos]? = some t)
    (heof : t.lexeme ≠ .eof) : pos + 1 < ts.length := by
  have hpos : pos < ts.length := (List.getElem?_eq_some_iff.mp ht).1
  refine Nat.lt_of_le_of_ne hpos fun hlast => heof ?_
  have hpos' : ts.length - 1 = pos := by omega
  rw [HasEnd, List.getLast?_eq_getElem?, hpos', ht] at hend
  exact Option.some.inj hend

theorem hasEnd_ended (ts : List Token) : HasEnd (ended ts) := by
  unfold ended
  split
  · rfl
  · next last hlast =>
      split
      · next heof => rw [HasEnd, hlast, Option.map_some, heof]
      · rw [HasEnd, List.getLast?_concat, Option.map_some]

theorem length_ended_le (ts : List Token) : (ended ts).length ≤ ts.length + 1 := by
  unfold ended
  split
  · exact Nat.le_add_left 1 ts.length
  · split
    · exact Nat.le_succ ts.length
    · exact Nat.le_of_eq List.length_append

theorem build_of_eof {t : Token} (heof : t.lexeme = .eof) :
    build k inner outer (t :: ts) = unterminated := by
  simp only [build, heof]

/-- An end of the program behind the tokens changes nothing. -/
theorem build_append_eof (ts : List Token) (line k : Nat) (inner : List Tree)
    (outer : List (List Tree)) :
    build k inner outer (ts ++ [⟨.eof, line⟩]) = build k inner outer ts := by
  induction ts generalizing k inner outer with
  | nil => rw [List.nil_append, build_eof, build_nil]
  | cons t ts ih => simp only [List.cons_append, build, ih]

/-- Tokens without an end are a program like those with one. -/
theorem parse_ended (ts : List Token) : Tree.parse (ended ts) = Tree.parse ts := by
  unfold ended
  split
  · next hnone =>
      rw [List.getLast?_eq_none_iff.mp hnone]
      rfl
  · next last hlast =>
      split
      · rfl
      · cases ts with
        | nil => cases hlast
        | cons t ts =>
            obtain ⟨x, line⟩ := t
            cases x with
            | lparen => exact congrArg (Parse.mk · []) (build_append_eof ts last.line 0 [] [])
            | _ => exact congrArg (Parse.mk · [.missingParen]) (build_append_eof _ last.line 0 [] [])

/-! ## Lists that are passed over -/

/-- The tree of a program from inside a list that is passed over, `level` parentheses of which are
open. -/
def passing (level : Nat) (inner : List Tree) (outer : List (List Tree)) (ts : List Token) : Tree :=
  match level with
  | 0 => build 0 (tooDeep :: inner) outer ts
  | k + 1 => build (k + 1) inner outer ts

/-- A token inside a list that is passed over counts alike for both readers. -/
theorem passOver_step {t : Token} (ht : ts[pos]? = some t) (heof : t.lexeme ≠ .eof) (k : Nat) :
    ∃ level, (∀ steps, passOver ts (steps + 1) (k + 1) pos = passOver ts steps level (pos + 1)) ∧
      ∀ inner outer rest, passing (k + 1) inner outer (t :: rest) = passing level inner outer rest := by
  have hx := lexemeAt_eq ht
  obtain ⟨x, line⟩ := t
  cases x with
  | eof => exact absurd rfl heof
  | lparen => exact ⟨k + 2, fun steps => by simp only [passOver, hx], fun _ _ _ => rfl⟩
  | rparen =>
      refine ⟨k, fun steps => by simp only [passOver, hx], fun _ _ _ => ?_⟩
      cases k <;> rfl
  | _ => exact ⟨k + 1, fun steps => by simp only [passOver, hx], fun _ _ _ => rfl⟩

/-- **A list is passed over up to its end or the end of the program.** -/
theorem passOver_reads (hend : HasEnd ts) (hpos : pos < ts.length)
    (hsteps : ts.length ≤ pos + steps) (level : Nat) :
    ∃ next, passOver ts steps level pos = some next ∧ pos ≤ next ∧ next < ts.length ∧
      ∀ inner outer, passing level inner outer (ts.drop pos)
        = build 0 (tooDeep :: inner) outer (ts.drop next) := by
  induction steps generalizing level pos with
  | zero => exact absurd hpos (Nat.not_lt.mpr hsteps)
  | succ steps ih =>
      cases level with
      | zero => exact ⟨pos, rfl, Nat.le_refl pos, hpos, fun _ _ => rfl⟩
      | succ k =>
          obtain ⟨t, ht⟩ : ∃ t, ts[pos]? = some t := ⟨_, List.getElem?_eq_getElem hpos⟩
          have hx := lexemeAt_eq ht
          by_cases heof : t.lexeme = .eof
          · refine ⟨pos, by simp only [passOver, hx, heof], Nat.le_refl pos, hpos, fun _ _ => ?_⟩
            rw [drop_eq_cons ht, passing, build_of_eof heof, build_of_eof heof]
          · obtain ⟨level, hpass, hpassing⟩ := passOver_step ht heof k
            obtain ⟨next, hcall, hle, hlt, hbuild⟩ :=
              ih (succ_lt_length hend ht heof) (by omega) level
            refine ⟨next, (hpass steps).trans hcall, Nat.le_of_succ_le hle, hlt, fun _ _ => ?_⟩
            rw [drop_eq_cons ht, hpassing, hbuild]

/-! ## Elements and lists -/

/-- An atom is an element by itself. -/
theorem element_atom {a : Tree} (hx : lexemeAt ts pos = some x) (ha : x.atom? = some a) :
    element stray ts (steps + 1) depth pos = some ⟨a, pos + 1⟩ := by
  cases x with
  | number n => simp only [element, hx, ← Option.some.inj ha]
  | text s => simp only [element, hx, ← Option.some.inj ha]
  | name s => simp only [element, hx, ← Option.some.inj ha]
  | _ => cases ha

/-- A list goes on with another element unless it or the program ends. -/
theorem list_element (hx : lexemeAt ts pos = some x) (hrparen : x ≠ .rparen) (heof : x ≠ .eof) :
    list stray ts (steps + 1) depth elements pos
      = (element stray ts steps depth pos).bind fun r =>
          list stray ts steps depth (r.tree :: elements) r.next := by
  cases x with
  | rparen => exact absurd rfl hrparen
  | eof => exact absurd rfl heof
  | _ => simp only [list, hx]

/-- The tree of a program after one of its lists has been read: the outermost one is the tree, any other
joins the innermost list that is open. -/
def resume (t : Tree) (outer : List (List Tree)) (ts : List Token) : Tree :=
  match outer with
  | [] => t
  | around :: outer => build 0 (t :: around) outer ts

/-- The end of a list leaves it to the lists around it. -/
theorem build_of_rparen {t : Token} (hrparen : t.lexeme = .rparen) :
    build 0 inner outer (t :: ts) = resume (.list inner.reverse) outer ts := by
  cases outer <;> simp only [build, hrparen, resume]

/-- An unterminated list was stopped by the end of the program, which stops the lists around it as
well. -/
theorem resume_unterminated {t : Token} (heof : t.lexeme = .eof) :
    resume unterminated outer (t :: ts) = unterminated := by
  cases outer with
  | nil => rfl
  | cons around outer => rw [resume, build_of_eof heof]

/-- With so many steps a call for the rest of a list reads it, if there are two of them for each token
that is left. -/
def ListReads (stray : Nat → Option Reading) (ts : List Token) (steps : Nat) : Prop :=
  ∀ inner outer pos, pos < ts.length → 2 * ts.length ≤ 2 * pos + steps + 1 →
    ∃ r, list stray ts steps (outer.length + 1) inner pos = some r ∧ pos ≤ r.next ∧
      r.next < ts.length ∧ build 0 inner outer (ts.drop pos) = resume r.tree outer (ts.drop r.next)

/-- **A call for an element reads one and moves on**, given a token with which an element begins. -/
theorem element_reads (hend : HasEnd ts) (hlist : ListReads stray ts steps) {t : Token}
    (ht : ts[pos]? = some t) (hrparen : t.lexeme ≠ .rparen) (heof : t.lexeme ≠ .eof)
    (hsteps : 2 * ts.length ≤ 2 * pos + steps + 3) (inner : List Tree) (outer : List (List Tree)) :
    ∃ r, element stray ts (steps + 1) (outer.length + 1) pos = some r ∧ pos < r.next ∧
      r.next < ts.length ∧
      build 0 inner outer (ts.drop pos) = build 0 (r.tree :: inner) outer (ts.drop r.next) := by
  have hx := lexemeAt_eq ht
  have hdrop := drop_eq_cons ht
  have hnext := succ_lt_length hend ht heof
  obtain ⟨x, line⟩ := t
  rcases x.kinds with rfl | rfl | rfl | ⟨a, ha⟩
  · exact absurd rfl heof
  · by_cases h : outer.length + 1 < maxDepth
    · obtain ⟨r, hcall, hle, hlt, hbuild⟩ :=
        hlist [] (inner :: outer) (pos + 1) hnext (by omega)
      refine ⟨r, ?_, hle, hlt, ?_⟩
      · simp only [element, hx, if_neg (Nat.not_le.mpr h)]
        exact hcall
      · rw [hdrop, build_lparen h, hbuild, resume]
    · -- on the deepest level the list is passed over
      have hdeepest : maxDepth ≤ outer.length + 1 := Nat.not_lt.mp h
      have henough : ts.length ≤ pos + 1 + steps := by omega
      obtain ⟨next, hcall, hle, hlt, hbuild⟩ := passOver_reads hend hnext henough 1
      refine ⟨⟨tooDeep, next⟩, ?_, hle, hlt, ?_⟩
      · simp only [element, hx, if_pos hdeepest, hcall, Option.map_some]
      · rw [hdrop, build_lparen_of_le hdeepest]
        exact hbuild inner outer
  · exact absurd rfl hrparen
  · refine ⟨⟨a, pos + 1⟩, element_atom hx ha, Nat.lt_succ_self pos, hnext, ?_⟩
    rw [hdrop, build_atom ha]

/-- **A call for the rest of a list reads it**, and leaves off at its end or at the end of the
program. -/
theorem list_reads (hend : HasEnd ts) (steps : Nat) : ListReads stray ts steps := by
  -- an element is read with one step less, and a list that it is with one less again
  induction steps using Nat.strongRecOn with
  | ind steps ih =>
      intro inner outer pos hpos hsteps
      obtain ⟨t, ht⟩ : ∃ t, ts[pos]? = some t := ⟨_, List.getElem?_eq_getElem hpos⟩
      have hx := lexemeAt_eq ht
      have hdrop := drop_eq_cons ht
      obtain ⟨steps, rfl⟩ := Nat.exists_eq_add_one.mpr (show 0 < steps by omega)
      by_cases heof : t.lexeme = .eof
      · refine ⟨⟨unterminated, pos⟩, by simp only [list, hx, heof], Nat.le_refl pos, hpos, ?_⟩
        rw [hdrop, build_of_eof heof, resume_unterminated heof]
      · have hnext := succ_lt_length hend ht heof
        by_cases hrparen : t.lexeme = .rparen
        · refine ⟨⟨.list inner.reverse, pos + 1⟩, by simp only [list, hx, hrparen], Nat.le_succ pos,
            hnext, ?_⟩
          rw [hdrop, build_of_rparen hrparen]
        · obtain ⟨steps, rfl⟩ := Nat.exists_eq_add_one.mpr (show 0 < steps by omega)
          obtain ⟨r, helement, hle, hlt, hbuild⟩ :=
            element_reads hend (ih steps (by omega)) ht hrparen heof (by omega) inner outer
          obtain ⟨r', hrest, hle', hlt', hbuild'⟩ :=
            ih (steps + 1) (Nat.lt_succ_self _) (r.tree :: inner) outer r.next hlt (by omega)
          refine ⟨r', ?_, by omega, hlt', hbuild.trans hbuild'⟩
          rw [list_element hx hrparen heof, helement, Option.bind_some]
          exact hrest

/-- **A program is read by recursive descent to the same result**, in at most two steps for each token
and whatever `stray` says. -/
theorem program_eq (stray : Nat → Option Reading) (ts : List Token)
    (hsteps : 2 * (ts.length + 1) ≤ steps) : program stray ts steps = some (Tree.parse ts) := by
  have hend := hasEnd_ended ts
  have hlength := length_ended_le ts
  have hread : ∀ pos < (ended ts).length,
      ∃ r, list stray (ended ts) steps 1 [] pos = some r ∧
        build 0 [] [] ((ended ts).drop pos) = r.tree := by
    intro pos hpos
    obtain ⟨r, hcall, -, -, hbuild⟩ := list_reads hend steps [] [] pos hpos (by omega)
    exact ⟨r, hcall, hbuild⟩
  rw [← parse_ended ts, program]
  generalize ended ts = us at hend hread ⊢
  cases us with
  | nil => cases hend
  | cons t us =>
      obtain ⟨x, line⟩ := t
      have hx : lexemeAt (⟨x, line⟩ :: us) 0 = some x := rfl
      by_cases hparen : x = .lparen
      · subst hparen
        have hfirst : (⟨.lparen, line⟩ :: us : List Token)[0]? = some ⟨.lparen, line⟩ := rfl
        obtain ⟨r, hcall, hbuild⟩ := hread 1 (succ_lt_length hend hfirst (by simp))
        rw [hx, Option.bind_some, if_pos rfl, hcall, Option.map_some, ← hbuild]
        rfl
      · obtain ⟨r, hcall, hbuild⟩ := hread 0 (Nat.succ_pos _)
        rw [hx, Option.bind_some, if_neg hparen, hcall, Option.map_some, ← hbuild]
        cases x with
        | lparen => exact absurd rfl hparen
        | _ => rfl

end Descent

/-! ## The trees that are read -/

namespace Tree

mutual

/-- The messages of the remarks in a tree, each with the number of lists around it, when the tree itself
stands in `level` lists. -/
def remarks (level : Nat) : Tree → List (Nat × String)
  | .error message => [(level, message)]
  | .list ts => remarksAll (level + 1) ts
  | .number _ | .text _ | .name _ | .foreign _ => []

/-- The messages of the remarks in the trees. -/
def remarksAll (level : Nat) : List Tree → List (Nat × String)
  | [] => []
  | t :: ts => remarks level t ++ remarksAll level ts

end

theorem mem_remarks_list {ts : List Tree} {level : Nat} {r : Nat × String} :
    r ∈ (list ts).remarks level ↔ ∃ t ∈ ts, r ∈ t.remarks (level + 1) := by
  rw [remarks]
  induction ts with
  | nil => simp [remarksAll]
  | cons t ts ih => simp [remarksAll, ih]

theorem remarks_atom {x : Lexeme} {a : Tree} (ha : x.atom? = some a) (level : Nat) :
    a.remarks level = [] ∧ a.depth = 0 := by
  cases x with
  | number n => exact Option.some.inj ha ▸ ⟨rfl, rfl⟩
  | text s => exact Option.some.inj ha ▸ ⟨rfl, rfl⟩
  | name s => exact Option.some.inj ha ▸ ⟨rfl, rfl⟩
  | _ => cases ha

/-- A tree that may stand as an element of a list at the given level: its lists are not nested too deep,
and a remark says so where they would be. -/
def ReadAt (level : Nat) (t : Tree) : Prop :=
  t.depth + level ≤ maxDepth ∧ ∀ r ∈ t.remarks level, r = (maxDepth, "nesting too deep")

theorem fits_readAt (ts : List Token) : Fits ReadAt ts where
  atom t _ a ha level _ hlevel := by
    obtain ⟨hremarks, hdepth⟩ := remarks_atom ha level
    refine ⟨by rwa [hdepth, Nat.zero_add], fun r hr => ?_⟩
    rw [hremarks] at hr
    cases hr
  tooDeep := ⟨Nat.le_of_eq (Nat.zero_add maxDepth), fun _ hr => List.mem_singleton.mp hr⟩
  list us level _ hlevel hus := by
    refine ⟨depth_list_add_le hlevel fun u hu => (hus u hu).1, fun r hr => ?_⟩
    obtain ⟨u, hu, hr⟩ := mem_remarks_list.mp hr
    exact (hus u hu).2 r hr

/-- **Every tree that is read is well formed.** Recursive descent has a result for every token list: no
call looks beyond the tokens, and none asks for an element where none begins, so that it does not matter
what `stray` leads to. The result is the remark that the program is unterminated and nothing else, or a
list. In a list, lists are nested at most `maxDepth` deep, and every remark says that a list is nested too
deep and is an element of a list on the deepest level. -/
theorem parse_wellFormed (ts : List Token) :
    (∀ stray more, Descent.program stray ts (2 * (ts.length + 1) + more) = some (Tree.parse ts)) ∧
      ((Tree.parse ts).tree = .error "unterminated list" ∨
        ∃ us, (Tree.parse ts).tree = .list us ∧ (list us).depth ≤ maxDepth ∧
          ∀ r ∈ (list us).remarks 0, r = (maxDepth, "nesting too deep")) := by
  refine ⟨fun stray more => Descent.program_eq stray ts (Nat.le_add_right _ more), ?_⟩
  rcases parse_fits (fits_readAt ts) with hnone | ⟨us, htree, hus⟩
  · exact Or.inl hnone
  · refine Or.inr ⟨us, htree, ?_, fun r hr => ?_⟩
    · exact depth_list_le_iff.mpr fun u hu => Nat.le_sub_of_add_le (hus u hu).1
    · obtain ⟨u, hu, hr⟩ := mem_remarks_list.mp hr
      exact (hus u hu).2 r hr

/-- A list that is nested one level too deep is a remark on the deepest level. -/
example :
    (Tree.parse (List.replicate 101 ⟨.lparen, 1⟩ ++ List.replicate 101 ⟨.rparen, 1⟩)).tree.remarks 0
      = [(100, "nesting too deep")] := by
  decide +kernel

end Tree
end FormLang
