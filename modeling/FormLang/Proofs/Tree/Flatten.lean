import FormLang.Proofs.Tree.Reader

/-!
# `FormLang.Proofs.Tree.Flatten` — reading the tokens of a tree gives the tree

A tree is written as tokens by putting parentheses around the elements of each list. The reader
undoes this, whatever follows the outermost list, except that a list inside `maxDepth` others
becomes a remark. The argument goes through the two ways in which the reader passes a tree: it reads
one inside lists that may be nested further (`build_read`), and it passes over one by counting
(`build_skip`). At the deepest level the first hands over to the second.

## Contents
- `Tree.lexemes`: the lexemes of a tree.
- `Tree.truncateFrom`: a tree with remarks in place of lists that are nested too deep.
- `build_skip`, `build_read`: how the reader passes the lexemes of a tree.
- `parse_lexemes`, `parse_flattened`: the reader of programs on the lexemes of a tree.
-/

namespace FormLang
namespace Tree

/-! ## Trees as lexemes -/

mutual

/-- The lexemes of a tree. Remarks and whatever is no tree have none. -/
def lexemes : Tree → List Lexeme
  | .number n => [.number n]
  | .text s => [.text s]
  | .name s => [.name s]
  | .list ts => .lparen :: (lexemesAll ts ++ [.rparen])
  | .error _ | .foreign _ => []

/-- The lexemes of trees, one after the other. -/
def lexemesAll : List Tree → List Lexeme
  | [] => []
  | t :: ts => lexemes t ++ lexemesAll ts

end

mutual

/-- The tree with a remark in place of every list at a level past `maxDepth`. The tree itself stands
at the given level. -/
def truncateFrom (level : Nat) : Tree → Tree
  | .list ts => if level ≤ maxDepth then .list (truncateAllFrom (level + 1) ts) else tooDeep
  | .number n => .number n
  | .text s => .text s
  | .name s => .name s
  | .error message => .error message
  | .foreign v => .foreign v

/-- The trees with remarks in place of lists that are nested too deep. -/
def truncateAllFrom (level : Nat) : List Tree → List Tree
  | [] => []
  | t :: ts => truncateFrom level t :: truncateAllFrom level ts

end

theorem truncateAllFrom_eq_map (level : Nat) (ts : List Tree) :
    truncateAllFrom level ts = ts.map (truncateFrom level) := by
  induction ts with
  | nil => rfl
  | cons t ts ih => rw [truncateAllFrom, ih, List.map_cons]

/-- A list that is not too deep keeps its elements, one level further down. -/
theorem truncateFrom_list {level : Nat} (h : level ≤ maxDepth) (ts : List Tree) :
    truncateFrom level (.list ts) = .list (ts.map (truncateFrom (level + 1))) := by
  rw [truncateFrom, if_pos h, truncateAllFrom_eq_map]

/-- A list past the limit is replaced as a whole. -/
theorem truncateFrom_list_of_lt {level : Nat} (h : maxDepth < level) (ts : List Tree) :
    truncateFrom level (.list ts) = tooDeep := by
  rw [truncateFrom, if_neg (Nat.not_le.mpr h)]

/-- **A tree that fits is not truncated.** -/
theorem truncateFrom_eq_self {t : Tree} {level : Nat} (h : t.depth + level ≤ maxDepth + 1) :
    t.truncateFrom level = t := by
  induction t generalizing level with
  | list ts ih =>
      have hlevel : level ≤ maxDepth := by
        rw [depth] at h
        omega
      have helem : ∀ t ∈ ts, t.truncateFrom (level + 1) = t := by
        intro t hmem
        have hdepth : t.depth ≤ depthAll ts := depthAll_le_iff.mp (Nat.le_refl _) t hmem
        rw [depth] at h
        exact ih t hmem (by omega)
      rw [truncateFrom_list hlevel, List.map_congr_left helem, List.map_id']
  | _ => rfl

/-! ## The reader passes the lexemes of a tree -/

/-- Lexemes as tokens, all on the first line. -/
def unplaced (xs : List Lexeme) : List Token := xs.map fun x => ⟨x, 1⟩

@[simp] theorem unplaced_nil : unplaced [] = [] := rfl

@[simp] theorem unplaced_cons (x : Lexeme) (xs : List Lexeme) :
    unplaced (x :: xs) = ⟨x, 1⟩ :: unplaced xs := rfl

@[simp] theorem unplaced_append (xs ys : List Lexeme) :
    unplaced (xs ++ ys) = unplaced xs ++ unplaced ys := List.map_append

@[simp] theorem lexeme_unplaced (xs : List Lexeme) :
    (unplaced xs).map Token.lexeme = xs := by
  rw [unplaced, List.map_map]
  exact List.map_id xs

variable {outer : List (List Tree)} {rest : List Token}

/-- Trees inside a list that is passed over are passed over if each of them is. -/
theorem build_skipAll {ts : List Tree} {k : Nat} {inner : List Tree}
    (h : ∀ t ∈ ts, ∀ rest, build (k + 1) inner outer (unplaced t.lexemes ++ rest)
      = build (k + 1) inner outer rest) (rest : List Token) :
    build (k + 1) inner outer (unplaced (lexemesAll ts) ++ rest) = build (k + 1) inner outer rest := by
  induction ts with
  | nil => rfl
  | cons t ts ih =>
      rw [lexemesAll, unplaced_append, List.append_assoc, h t List.mem_cons_self,
        ih fun u hu => h u (List.mem_cons_of_mem t hu)]

/-- **A tree inside a list that is passed over is passed over.** The parentheses of its own lists
cancel out. -/
theorem build_skip (t : Tree) (k : Nat) (inner : List Tree) (rest : List Token) :
    build (k + 1) inner outer (unplaced t.lexemes ++ rest) = build (k + 1) inner outer rest := by
  induction t generalizing k rest with
  | list ts ih =>
      rw [lexemes, unplaced_cons, unplaced_append, List.cons_append, List.append_assoc,
        build_lparen_skipped, build_skipAll fun t hmem rest => ih t hmem (k + 1) rest]
      exact build_rparen_skipped
  | number n => exact build_atom_skipped rfl
  | text s => exact build_atom_skipped rfl
  | name s => exact build_atom_skipped rfl
  | error message => rfl
  | foreign v => rfl

/-- The elements of a list join it one after the other if each of them does. -/
theorem build_readAll {ts : List Tree} {level : Nat}
    (h : ∀ t ∈ ts, ∀ inner rest, build 0 inner outer (unplaced t.lexemes ++ rest)
      = build 0 (t.truncateFrom level :: inner) outer rest) (inner : List Tree) (rest : List Token) :
    build 0 inner outer (unplaced (lexemesAll ts) ++ rest)
      = build 0 ((ts.map (truncateFrom level)).reverse ++ inner) outer rest := by
  induction ts generalizing inner with
  | nil => rfl
  | cons t ts ih =>
      rw [lexemesAll, unplaced_append, List.append_assoc, h t List.mem_cons_self,
        ih fun u hu => h u (List.mem_cons_of_mem t hu)]
      simp only [List.map_cons, List.reverse_cons, List.append_assoc, List.singleton_append]

/-- **A tree that is read joins the innermost list**, cut off where lists are nested too deep. It
stands one level below the lists that are open; past the last level it is passed over. -/
theorem build_read {t : Tree} (ht : t.Leaves IsAtom) (hopen : outer.length < maxDepth)
    (inner : List Tree) (rest : List Token) :
    build 0 inner outer (unplaced t.lexemes ++ rest)
      = build 0 (t.truncateFrom (outer.length + 2) :: inner) outer rest := by
  induction t generalizing inner outer rest with
  | list ts ih =>
      rw [lexemes, unplaced_cons, unplaced_append, List.cons_append, List.append_assoc]
      rw [leaves_list] at ht
      by_cases hlevel : outer.length + 1 < maxDepth
      · have helem : ∀ t ∈ ts, ∀ inner' rest',
            build 0 inner' (inner :: outer) (unplaced t.lexemes ++ rest')
              = build 0 (t.truncateFrom (outer.length + 3) :: inner') (inner :: outer) rest' :=
          fun t hmem inner' rest' => ih t hmem (ht t hmem) (by exact hlevel) inner' rest'
        rw [build_lparen hlevel, build_readAll helem, List.append_nil, unplaced_cons, unplaced_nil,
          List.cons_append, build_rparen, List.reverse_reverse, truncateFrom_list hlevel]
        rfl
      · -- from here on only parentheses are counted
        have hlast : maxDepth ≤ outer.length + 1 := Nat.not_lt.mp hlevel
        rw [build_lparen_of_le hlast, build_skipAll fun t _ rest' => build_skip t 0 inner rest',
          truncateFrom_list_of_lt (Nat.lt_succ_of_le hlast)]
        exact build_rparen_passed
  | number n => exact build_atom rfl
  | text s => exact build_atom rfl
  | name s => exact build_atom rfl
  | error message => exact absurd ht id
  | foreign v => exact absurd ht id

/-- The reader of programs on the lexemes of a list, wherever these stand and whatever follows. -/
theorem parse_lexemes {us : List Tree} (hus : ∀ u ∈ us, u.Leaves IsAtom) {ts : List Token}
    (hts : ts.map Token.lexeme = (list us).lexemes) (suffix : List Token) :
    Tree.parse (ts ++ suffix) = ⟨(list us).truncateFrom 1, []⟩ := by
  obtain ⟨t, body, rfl, ht, hbody⟩ := List.map_eq_cons_iff.mp hts
  obtain ⟨x, line⟩ := t
  subst ht
  have hread : ∀ t ∈ us, ∀ inner rest, build 0 inner [] (unplaced t.lexemes ++ rest)
      = build 0 (t.truncateFrom 2 :: inner) [] rest :=
    fun t hmem inner rest => build_read (hus t hmem) (by decide) inner rest
  have hlines : (body ++ suffix).map Token.lexeme
      = (unplaced (lexemesAll us ++ [.rparen]) ++ suffix).map Token.lexeme := by
    rw [List.map_append, List.map_append, hbody, lexeme_unplaced]
  show Parse.mk (build 0 [] [] (body ++ suffix)) [] = _
  rw [build_congr hlines, unplaced_append, List.append_assoc, build_readAll hread, List.append_nil,
    unplaced_cons, unplaced_nil, List.cons_append, build_rparen_outermost, List.reverse_reverse,
    truncateFrom_list (by decide)]

/-- **Reading undoes writing as tokens.** For every tree that is a list and has neither remarks nor
foreign parts, whatever tokens follow and on whatever lines they stand, the reader gives the tree with
a remark in place of each list past level `maxDepth`, and reports nothing. A tree that is nested no
deeper comes back unchanged. -/
theorem parse_flattened {t : Tree} (hroot : ∃ us, t = .list us) (hatoms : t.Leaves IsAtom)
    {ts : List Token} (hts : ts.map Token.lexeme = t.lexemes) (suffix : List Token) :
    Tree.parse (ts ++ suffix) = ⟨t.truncateFrom 1, []⟩ ∧
      (t.depth ≤ maxDepth → t.truncateFrom 1 = t) := by
  obtain ⟨us, rfl⟩ := hroot
  exact ⟨parse_lexemes (leaves_list.mp hatoms) hts suffix,
    fun hdepth => truncateFrom_eq_self (Nat.add_le_add_right hdepth 1)⟩

/-- Lists inside one another, each followed by a number in the list around it. -/
def nested : Nat → Tree
  | 0 => .list [.text "innermost"]
  | k + 1 => .list [nested k, .number k]

/-- One list too deep, with a number after it at every level and tokens after the whole. -/
theorem parse_flattened_nested :
    (∃ us, nested 100 = .list us) ∧ (nested 100).Leaves IsAtom ∧
      (unplaced (nested 100).lexemes).map Token.lexeme = (nested 100).lexemes ∧
      Tree.parse (unplaced (nested 100).lexemes ++ [⟨.rparen, 7⟩])
        = ⟨(nested 100).truncateFrom 1, []⟩ :=
  have hroot : ∃ us, nested 100 = .list us := ⟨_, rfl⟩
  have hatoms : (nested 100).Leaves IsAtom := by decide +kernel
  have hts := lexeme_unplaced (nested 100).lexemes
  ⟨hroot, hatoms, hts, (parse_flattened hroot hatoms hts [⟨.rparen, 7⟩]).1⟩

end Tree
end FormLang
