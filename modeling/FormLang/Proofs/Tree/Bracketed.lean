import FormLang.Proofs.Tree.Closing
import FormLang.Proofs.Tree.Flatten
import Mathlib.Data.List.Infix

/-!
# `FormLang.Proofs.Tree.Bracketed` — tokens in one pair of parentheses are those of a tree

Tokens that begin with a parenthesis and end with the one that closes it are the lexemes of a list, and
the list is nested no deeper than parentheses are ever open. The argument goes through the tokens with
the lists that are open, as the reader does, but it never passes over one: what has been taken so far
is written in the open lists (`openLexemes`), and each token keeps that so.

## Contents
- `Bracketed`: tokens from a parenthesis to the one that closes it.
- `StaysWithin`: tokens that nowhere have too many lists open.
- `openLexemes`: the lexemes of lists that are open.
- `exists_elements`, `Bracketed.exists_list`: the tree of such tokens.
-/

namespace FormLang
namespace Tree

/-! ## From a parenthesis to the one that closes it -/

/-- The first of the tokens is a parenthesis and the last is the one that closes it; at no place are more
than `levels` parentheses open. -/
structure Bracketed (levels : Nat) (ts : List Token) : Prop where
  startsOpen : StartsOpen ts
  closed : ShortestClosedPrefix ts ts
  nested : ∀ q, q <+: ts → opens q ≤ closes q + levels

/-- Only finitely many first parts need to be looked at. -/
theorem bracketed_iff {levels : Nat} {ts : List Token} :
    Bracketed levels ts ↔ StartsOpen ts ∧ (ts ≠ [] ∧ closes ts = opens ts) ∧
      (∀ q ∈ ts.inits, q ≠ [] → closes q = opens q → ts.length ≤ q.length) ∧
      ∀ q ∈ ts.inits, opens q ≤ closes q + levels := by
  simp only [List.mem_inits]
  constructor
  · rintro ⟨hstart, ⟨⟨-, hne, hcount⟩, hshort⟩, hnested⟩
    exact ⟨hstart, ⟨hne, hcount⟩, fun q hq hqne hqcount => hshort q ⟨hq, hqne, hqcount⟩, hnested⟩
  · rintro ⟨hstart, ⟨hne, hcount⟩, hshort, hnested⟩
    refine ⟨hstart, ⟨⟨List.prefix_rfl, hne, hcount⟩, ?_⟩, hnested⟩
    rintro q ⟨hq, hqne, hqcount⟩
    exact hshort q hq hqne hqcount

instance (levels : Nat) (ts : List Token) : Decidable (Bracketed levels ts) :=
  decidable_of_iff _ bracketed_iff.symm

/-- Behind the first parenthesis stands what closes one list. -/
theorem Bracketed.closing {levels : Nat} {ts : List Token} (h : Bracketed levels ts) :
    ∃ line body, ts = ⟨.lparen, line⟩ :: body ∧ Closing 1 body := by
  obtain ⟨hstart, ⟨hclosed, hshort⟩, -⟩ := h
  cases ts with
  | nil => cases hstart
  | cons t body =>
      obtain ⟨x, line⟩ := t
      obtain rfl : x = .lparen := by simpa [StartsOpen] using hstart
      obtain ⟨body', hbody', -, hcount⟩ := exists_closing_of_closedPrefix hclosed
      obtain rfl : body = body' := (List.cons.inj hbody').2
      refine ⟨line, body, rfl, hcount, ?_⟩
      intro q hq hne
      by_contra hle
      -- a proper first part that closes the list would be a shorter closed first part
      obtain ⟨r, hr, hclosing⟩ := exists_closing_of_count Nat.one_pos (Nat.not_lt.mp hle)
      have hlength := hshort _ (closedPrefix_of_closing (hr.trans hq) hclosing)
      rw [List.length_cons, List.length_cons, Nat.add_le_add_iff_right] at hlength
      exact hne (hq.eq_of_length_le (Nat.le_trans hlength hr.length_le))

/-! ## The depth of the tokens -/

/-- The tokens, before which `m` lists are open, nowhere have more than `levels` of them open. -/
def StaysWithin (levels m : Nat) (ts : List Token) : Prop :=
  ∀ q, q <+: ts → opens q + m ≤ closes q + levels

theorem StaysWithin.le {levels m : Nat} {ts : List Token} (h : StaysWithin levels m ts) :
    m ≤ levels := by
  have hempty := h [] List.nil_prefix
  rw [opens_nil, closes_nil] at hempty
  omega

theorem StaysWithin.tail {levels m m' : Nat} {t : Token} {ts : List Token}
    (h : StaysWithin levels m (t :: ts)) (hm : opens [t] + m = closes [t] + m') :
    StaysWithin levels m' ts := by
  intro q hq
  have hle := h (t :: q) (List.cons_prefix_cons.mpr ⟨rfl, hq⟩)
  rw [opens_cons, closes_cons] at hle
  omega

/-! ## Open lists -/

theorem lexemesAll_append (ts us : List Tree) :
    lexemesAll (ts ++ us) = lexemesAll ts ++ lexemesAll us := by
  induction ts with
  | nil => rfl
  | cons t ts ih => rw [List.cons_append, lexemesAll, ih, lexemesAll, List.append_assoc]

/-- The lexemes of lists that are open, from behind the outermost parenthesis on. The elements of each
list are given last first. -/
def openLexemes (inner : List Tree) : List (List Tree) → List Lexeme
  | [] => lexemesAll inner.reverse
  | around :: outer => openLexemes around outer ++ .lparen :: lexemesAll inner.reverse

theorem openLexemes_nil (inner : List Tree) (outer : List (List Tree)) :
    openLexemes [] (inner :: outer) = openLexemes inner outer ++ [.lparen] := rfl

/-- An element that joins the innermost list adds its lexemes. -/
theorem openLexemes_push (t : Tree) (inner : List Tree) (outer : List (List Tree)) :
    openLexemes (t :: inner) outer = openLexemes inner outer ++ t.lexemes := by
  have hlast : lexemesAll (t :: inner).reverse = lexemesAll inner.reverse ++ t.lexemes := by
    rw [List.reverse_cons, lexemesAll_append]
    show _ ++ (t.lexemes ++ []) = _
    rw [List.append_nil]
  cases outer with
  | nil => exact hlast
  | cons around outer =>
      rw [openLexemes, hlast, openLexemes, List.append_assoc, List.cons_append]

/-- A list that is closed joins the one around it, and a parenthesis is added. -/
theorem openLexemes_close (inner around : List Tree) (outer : List (List Tree)) :
    openLexemes (.list inner.reverse :: around) outer
      = openLexemes inner (around :: outer) ++ [.rparen] := by
  rw [openLexemes_push, lexemes, openLexemes, List.append_assoc, List.cons_append]

/-! ## The tree of the tokens -/

/-- A tree of atoms that may stand in a list at the given level if there are `levels` of them. -/
def FitsAt (levels level : Nat) (t : Tree) : Prop := t.Leaves IsAtom ∧ t.depth + level ≤ levels

theorem lexemes_atom {x : Lexeme} {a : Tree} (h : x.atom? = some a) :
    a.lexemes = [x] ∧ a.Leaves IsAtom ∧ a.depth = 0 := by
  cases x with
  | number n => exact Option.some.inj h ▸ ⟨rfl, trivial, rfl⟩
  | text s => exact Option.some.inj h ▸ ⟨rfl, trivial, rfl⟩
  | name s => exact Option.some.inj h ▸ ⟨rfl, trivial, rfl⟩
  | _ => cases h

theorem fitsAt_list {levels level : Nat} {us : List Tree} (hlevel : level < levels)
    (h : ∀ u ∈ us, FitsAt levels (level + 1) u) : FitsAt levels level (.list us) :=
  ⟨leaves_list.mpr fun u hu => (h u hu).1, depth_list_add_le hlevel fun u hu => (h u hu).2⟩

/-- **Tokens that close the open lists complete their lexemes to those of a list.** -/
theorem exists_elements {levels : Nat} {r : List Token} {inner : List Tree}
    {outer : List (List Tree)} (hclosing : Closing (outer.length + 1) r)
    (hend : ∀ t ∈ r, t.lexeme ≠ .eof)
    (hwithin : StaysWithin levels (outer.length + 1) r)
    (hopen : OpenFits (FitsAt levels) (inner :: outer)) :
    ∃ us, openLexemes inner outer ++ r.map Token.lexeme = lexemesAll us ++ [.rparen] ∧
      ∀ u ∈ us, FitsAt levels 1 u := by
  induction r generalizing inner outer with
  | nil => exact absurd hclosing.count (by simp)
  | cons t r ih =>
      have hlevel : outer.length + 1 ≤ levels := hwithin.le
      have hendr : ∀ u ∈ r, u.lexeme ≠ .eof := fun u hu => hend u (List.mem_cons_of_mem t hu)
      obtain ⟨x, line⟩ := t
      rcases x.kinds with rfl | rfl | rfl | ⟨a, ha⟩
      · exact absurd rfl (hend _ List.mem_cons_self)
      · have hm : opens [⟨.lparen, line⟩] + (outer.length + 1)
            = closes [⟨.lparen, line⟩] + ((inner :: outer).length + 1) := by
          simp [opens, closes]
          omega
        obtain ⟨us, hus, hfits⟩ := ih (hclosing.tail hm) hendr (hwithin.tail hm)
          ⟨fun _ hu => absurd hu List.not_mem_nil, hopen⟩
        refine ⟨us, ?_, hfits⟩
        rw [← hus, openLexemes_nil, List.append_assoc]
        rfl
      · cases outer with
        | nil =>
            have hm : opens [⟨.rparen, line⟩] + 1 = closes [⟨.rparen, line⟩] + 0 := rfl
            have hlast : r = [] := by
              by_contra hne
              exact absurd ((hclosing.tail hm).before [] List.nil_prefix fun heq => hne heq.symm)
                (Nat.lt_irrefl 0)
            refine ⟨inner.reverse, by rw [hlast]; rfl, fun u hu => ?_⟩
            exact hopen.1 u (List.mem_reverse.mp hu)
        | cons around outer =>
            have hm : opens [⟨.rparen, line⟩] + ((around :: outer).length + 1)
                = closes [⟨.rparen, line⟩] + (outer.length + 1) := by
              simp [opens, closes]
              omega
            have hlist : FitsAt levels (outer.length + 1) (.list inner.reverse) :=
              fitsAt_list hlevel fun u hu => hopen.1 u (List.mem_reverse.mp hu)
            obtain ⟨us, hus, hfits⟩ := ih (hclosing.tail hm) hendr (hwithin.tail hm)
              (hopen.2.push hlist)
            refine ⟨us, ?_, hfits⟩
            rw [← hus, openLexemes_close, List.append_assoc]
            rfl
      · obtain ⟨hlexemes, hleaves, hdepth⟩ := lexemes_atom ha
        have hm : opens [⟨x, line⟩] + (outer.length + 1)
            = closes [⟨x, line⟩] + (outer.length + 1) := by
          cases x with
          | number n => rfl
          | text s => rfl
          | name s => rfl
          | _ => cases ha
        have hatom : FitsAt levels (outer.length + 1) a := by
          refine ⟨hleaves, ?_⟩
          rw [hdepth, Nat.zero_add]
          exact hlevel
        obtain ⟨us, hus, hfits⟩ := ih (hclosing.tail hm) hendr (hwithin.tail hm) (hopen.push hatom)
        refine ⟨us, ?_, hfits⟩
        rw [← hus, openLexemes_push, hlexemes, List.append_assoc]
        rfl

/-- **Tokens in one pair of parentheses are the lexemes of a list**, nested as deep as parentheses are
open among them. -/
theorem Bracketed.exists_list {levels : Nat} {ts : List Token} (h : Bracketed levels ts)
    (hend : ∀ t ∈ ts, t.lexeme ≠ .eof) :
    ∃ us, ts.map Token.lexeme = (list us).lexemes ∧ (list us).Leaves IsAtom ∧
      (list us).depth ≤ levels := by
  obtain ⟨line, body, rfl, hclosing⟩ := h.closing
  have hwhole : StaysWithin levels 0 (⟨.lparen, line⟩ :: body) := h.nested
  have hwithin : StaysWithin levels (([] : List (List Tree)).length + 1) body := hwhole.tail rfl
  have hempty : OpenFits (FitsAt levels) [[]] := ⟨fun _ hu => absurd hu List.not_mem_nil, trivial⟩
  have hendbody : ∀ t ∈ body, t.lexeme ≠ .eof := fun t ht => hend t (List.mem_cons_of_mem _ ht)
  have hone : Closing (([] : List (List Tree)).length + 1) body := hclosing
  obtain ⟨us, hus, hfits⟩ := exists_elements hone hendbody hwithin hempty
  have hlist : FitsAt levels 0 (.list us) := fitsAt_list hwithin.le hfits
  refine ⟨us, ?_, hlist.1, hlist.2⟩
  rw [lexemes, ← hus]
  rfl

end Tree
end FormLang
