import FormLang.Proofs.Tree.Nodes

/-!
# `FormLang.Proofs.Tree.Reader` — the reader of tokens, one step at a time

What `build` does with the next token depends on the kind of the token, on whether it is passing over
a list, and on how many lists are open. Each situation has an equation; the other modules go
through the tokens by these and do not open the definition.

## Contents
- `Lexeme.atom?`, `Lexeme.kinds`: the four kinds of lexeme that the reader tells apart.
- `build_lparen`, `build_rparen`, `build_atom` and their companions: one equation for each situation.
- `build_congr`, `parse_congr`: lines do not matter to the reader.
- `Fits`, `build_fits`, `parse_fits`: what holds of all elements of a list, level by level, holds of
  the tree that is read.
-/

namespace FormLang

/-- The tree that a lexeme stands for by itself. -/
def Lexeme.atom? : Lexeme → Option Tree
  | .number n => some (.number n)
  | .text s => some (.text s)
  | .name s => some (.name s)
  | .lparen | .rparen | .eof => none

/-- A lexeme is the end of the program, a parenthesis, or stands for a tree by itself. -/
theorem Lexeme.kinds (x : Lexeme) :
    x = .eof ∨ x = .lparen ∨ x = .rparen ∨ ∃ a, x.atom? = some a := by
  cases x <;> simp [atom?]

namespace Tree

variable {outer : List (List Tree)} {inner around : List Tree} {ts : List Token} {line k : Nat}

/-! ## One token -/

@[simp] theorem build_nil : build k inner outer [] = unterminated := rfl

@[simp] theorem build_eof : build k inner outer (⟨.eof, line⟩ :: ts) = unterminated := rfl

/-- What a parenthesis that opens a list does depends on how many lists are open. -/
theorem build_lparen_eq :
    build k inner outer (⟨.lparen, line⟩ :: ts) =
      if k = 0 then
        if outer.length + 1 < maxDepth then build 0 [] (inner :: outer) ts else build 1 inner outer ts
      else build (k + 1) inner outer ts := rfl

/-- A list opens where lists may be nested further. -/
theorem build_lparen (h : outer.length + 1 < maxDepth) :
    build 0 inner outer (⟨.lparen, line⟩ :: ts) = build 0 [] (inner :: outer) ts := by
  rw [build_lparen_eq, if_pos rfl, if_pos h]

/-- At the deepest level a list is passed over. -/
theorem build_lparen_of_le (h : maxDepth ≤ outer.length + 1) :
    build 0 inner outer (⟨.lparen, line⟩ :: ts) = build 1 inner outer ts := by
  rw [build_lparen_eq, if_pos rfl, if_neg (Nat.not_lt.mpr h)]

@[simp] theorem build_lparen_skipped :
    build (k + 1) inner outer (⟨.lparen, line⟩ :: ts) = build (k + 2) inner outer ts := by
  rw [build_lparen_eq, if_neg (Nat.add_one_ne_zero k)]

@[simp] theorem build_rparen_outermost :
    build 0 inner [] (⟨.rparen, line⟩ :: ts) = .list inner.reverse := rfl

@[simp] theorem build_rparen :
    build 0 inner (around :: outer) (⟨.rparen, line⟩ :: ts)
      = build 0 (.list inner.reverse :: around) outer ts := rfl

/-- The end of a list that was passed over. -/
@[simp] theorem build_rparen_passed :
    build 1 inner outer (⟨.rparen, line⟩ :: ts) = build 0 (tooDeep :: inner) outer ts := rfl

@[simp] theorem build_rparen_skipped :
    build (k + 2) inner outer (⟨.rparen, line⟩ :: ts) = build (k + 1) inner outer ts := rfl

/-- An atom joins the innermost list, unless a list is passed over. -/
theorem build_atom_eq {x : Lexeme} {a : Tree} (h : x.atom? = some a) :
    build k inner outer (⟨x, line⟩ :: ts)
      = build k (if k = 0 then a :: inner else inner) outer ts := by
  cases x with
  | number n =>
      obtain rfl := Option.some.inj h
      rfl
  | text s =>
      obtain rfl := Option.some.inj h
      rfl
  | name s =>
      obtain rfl := Option.some.inj h
      rfl
  | lparen => cases h
  | rparen => cases h
  | eof => cases h

theorem build_atom {x : Lexeme} {a : Tree} (h : x.atom? = some a) :
    build 0 inner outer (⟨x, line⟩ :: ts) = build 0 (a :: inner) outer ts := by
  rw [build_atom_eq h, if_pos rfl]

theorem build_atom_skipped {x : Lexeme} {a : Tree} (h : x.atom? = some a) :
    build (k + 1) inner outer (⟨x, line⟩ :: ts) = build (k + 1) inner outer ts := by
  rw [build_atom_eq h, if_neg (Nat.add_one_ne_zero k)]

/-! ## Lines do not matter -/

/-- **Token lists that differ in their lines alone are read alike.** -/
theorem build_congr {ts us : List Token} (h : ts.map Token.lexeme = us.map Token.lexeme)
    (k : Nat) (inner : List Tree) (outer : List (List Tree)) :
    build k inner outer ts = build k inner outer us := by
  induction ts generalizing us k inner outer with
  | nil => rw [List.map_eq_nil_iff.mp h.symm]
  | cons t ts ih =>
      cases us with
      | nil => simp at h
      | cons u us =>
          rw [List.map_cons, List.map_cons, List.cons.injEq] at h
          simp only [build, h.1, ih h.2]

theorem parse_congr {ts us : List Token} (h : ts.map Token.lexeme = us.map Token.lexeme) :
    Tree.parse ts = Tree.parse us := by
  have hbuild := build_congr h 0 [] []
  cases ts with
  | nil => rw [List.map_eq_nil_iff.mp h.symm]
  | cons t ts =>
      cases us with
      | nil => cases h
      | cons u us =>
          obtain ⟨x, line⟩ := t
          obtain ⟨y, line'⟩ := u
          obtain ⟨hlexeme, hrest⟩ := List.cons.inj h
          obtain rfl : x = y := hlexeme
          cases x with
          | lparen => simp only [Tree.parse, build_congr hrest]
          | _ => simp only [Tree.parse, hbuild]

/-! ## What holds of every element -/

/-- A property of trees that depends on the level of the list in which they stand as elements, and
that the reader keeps: it holds of the atoms of the tokens at every level, of the remark where lists
are passed over, and of a list if it holds of the elements one level further down. -/
structure Fits (p : Nat → Tree → Prop) (ts : List Token) : Prop where
  atom : ∀ t ∈ ts, ∀ a, t.lexeme.atom? = some a → ∀ level, 0 < level → level ≤ maxDepth → p level a
  tooDeep : p maxDepth tooDeep
  list : ∀ us level, 0 < level → level < maxDepth → (∀ u ∈ us, p (level + 1) u) → p level (.list us)

variable {p : Nat → Tree → Prop}

theorem Fits.tail {t : Token} (h : Fits p (t :: ts)) : Fits p ts :=
  ⟨fun u hu => h.atom u (List.mem_cons_of_mem t hu), h.tooDeep, h.list⟩

/-- The elements of the open lists satisfy the property at their levels. -/
def OpenFits (p : Nat → Tree → Prop) : List (List Tree) → Prop
  | [] => True
  | us :: outer => (∀ u ∈ us, p (outer.length + 1) u) ∧ OpenFits p outer

/-- A fitting element may join the innermost list. -/
theorem OpenFits.push {a : Tree} (ha : p (outer.length + 1) a) (h : OpenFits p (inner :: outer)) :
    OpenFits p ((a :: inner) :: outer) := by
  refine ⟨fun u hu => ?_, h.2⟩
  rcases List.mem_cons.mp hu with rfl | hu
  · exact ha
  · exact h.1 u hu

/-- **A property that the reader keeps holds of every element of the tree that is read.** While a
list is passed over, `maxDepth` lists are open. -/
theorem build_fits (hfits : Fits p ts) (hdeep : (inner :: outer).length ≤ maxDepth)
    (hopen : OpenFits p (inner :: outer)) (hskip : k ≠ 0 → (inner :: outer).length = maxDepth) :
    build k inner outer ts = unterminated ∨
      ∃ us, build k inner outer ts = .list us ∧ ∀ u ∈ us, p 1 u := by
  induction ts generalizing k inner outer with
  | nil => exact Or.inl build_nil
  | cons t ts ih =>
      obtain ⟨x, line⟩ := t
      have htail := hfits.tail
      rcases x.kinds with rfl | rfl | rfl | ⟨a, ha⟩
      · exact Or.inl build_eof
      · cases k with
        | zero =>
            by_cases h : outer.length + 1 < maxDepth
            · rw [build_lparen h]
              exact ih htail h ⟨fun _ hu => absurd hu (by simp), hopen⟩ (fun h0 => absurd rfl h0)
            · rw [build_lparen_of_le (Nat.not_lt.mp h)]
              exact ih htail hdeep hopen fun _ => Nat.le_antisymm hdeep (Nat.not_lt.mp h)
        | succ k =>
            rw [build_lparen_skipped]
            exact ih htail hdeep hopen fun _ => hskip (Nat.succ_ne_zero k)
      · match k with
        | 0 =>
            cases outer with
            | nil =>
                refine Or.inr ⟨inner.reverse, build_rparen_outermost, fun u hu => ?_⟩
                exact hopen.1 u (List.mem_reverse.mp hu)
            | cons around outer =>
                rw [build_rparen]
                rw [List.length_cons, List.length_cons] at hdeep
                have hlist : p (outer.length + 1) (.list inner.reverse) :=
                  hfits.list _ _ (Nat.succ_pos _) hdeep fun u hu => hopen.1 u (List.mem_reverse.mp hu)
                exact ih htail (Nat.le_of_succ_le hdeep) (hopen.2.push hlist) (fun h0 => absurd rfl h0)
        | 1 =>
            rw [build_rparen_passed]
            have hlevel : maxDepth = outer.length + 1 := (hskip Nat.one_ne_zero).symm
            exact ih htail hdeep (hopen.push (hlevel ▸ hfits.tooDeep)) (fun h0 => absurd rfl h0)
        | k + 2 =>
            rw [build_rparen_skipped]
            exact ih htail hdeep hopen fun _ => hskip (Nat.succ_ne_zero (k + 1))
      · cases k with
        | zero =>
            rw [build_atom ha]
            have hatom : p (outer.length + 1) a :=
              hfits.atom _ List.mem_cons_self a ha _ (Nat.succ_pos _) hdeep
            exact ih htail hdeep (hopen.push hatom) (fun h0 => absurd rfl h0)
        | succ k =>
            rw [build_atom_skipped ha]
            exact ih htail hdeep hopen fun _ => hskip (Nat.succ_ne_zero k)

/-- **What holds of every element, level by level, holds of the tree of a program.** -/
theorem parse_fits (hfits : Fits p ts) :
    (Tree.parse ts).tree = unterminated ∨
      ∃ us, (Tree.parse ts).tree = .list us ∧ ∀ u ∈ us, p 1 u := by
  have hempty : OpenFits p [[]] := ⟨fun _ hu => absurd hu (by simp), trivial⟩
  have hbuild : ∀ us, Fits p us → build 0 [] [] us = unterminated ∨
      ∃ vs, build 0 [] [] us = .list vs ∧ ∀ v ∈ vs, p 1 v :=
    fun us hus => build_fits hus (by decide) hempty fun h0 => absurd rfl h0
  unfold Tree.parse
  split
  · exact hbuild _ hfits.tail
  · exact hbuild _ hfits

end Tree
end FormLang
