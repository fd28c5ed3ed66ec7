import FormLang.Proofs.Tree.Reader
import Mathlib.Data.List.TakeWhile
import Mathlib.Data.Nat.Find

/-!
# `FormLang.Proofs.Tree.Closing` — a program is complete when its parentheses are balanced

The reader finds the end of a program by keeping the open lists, and inside a list that is passed over
by counting. Both are described by one count of parentheses: `n` lists are closed by the first
prefix of the tokens in which `n` more parentheses close than open.

## Contents
- `opens`, `closes`: how many parentheses open and close among tokens.
- `StaysOpen`, `Closing`: tokens that leave some of `n` lists open throughout, and tokens the last of
  which closes the last of them. Every token list stays open or begins with a closing one
  (`exists_closing`).
- `build_of_closing`, `build_of_staysOpen`: the reader in either case.
- `framed`: the tokens of a program with a parenthesis in front.
- `parse_list_or_unterminated`, `parse_shortestClosedPrefix`, `parse_complete_iff`: which programs are
  complete, and what decides the tree.
-/

namespace FormLang

/-! ## Counting parentheses -/

/-- The number of opening parentheses among tokens. -/
def opens (ts : List Token) : Nat := ts.countP fun t => t.lexeme = .lparen

/-- The number of closing parentheses among tokens. -/
def closes (ts : List Token) : Nat := ts.countP fun t => t.lexeme = .rparen

@[simp] theorem opens_nil : opens [] = 0 := rfl

@[simp] theorem closes_nil : closes [] = 0 := rfl

theorem opens_append (ts us : List Token) : opens (ts ++ us) = opens ts + opens us :=
  List.countP_append

theorem closes_append (ts us : List Token) : closes (ts ++ us) = closes ts + closes us :=
  List.countP_append

theorem opens_cons (t : Token) (ts : List Token) : opens (t :: ts) = opens [t] + opens ts :=
  opens_append [t] ts

theorem closes_cons (t : Token) (ts : List Token) : closes (t :: ts) = closes [t] + closes ts :=
  closes_append [t] ts

/-- Of `n` open lists some are open after every prefix of the tokens. -/
def StaysOpen (n : Nat) (ts : List Token) : Prop := ∀ q, q <+: ts → closes q < opens q + n

/-- The tokens close `n` open lists, and no proper prefix of them does. -/
structure Closing (n : Nat) (p : List Token) : Prop where
  count : closes p = opens p + n
  before : ∀ q, q <+: p → q ≠ p → closes q < opens q + n

variable {n m : Nat} {t : Token} {ts p : List Token}

theorem staysOpen_nil (hn : 0 < n) : StaysOpen n [] := by
  intro q hq
  rw [List.prefix_nil.mp hq, closes_nil, opens_nil, Nat.zero_add]
  exact hn

/-- After a token `m` lists are open instead of `n`. -/
theorem StaysOpen.cons (hn : 0 < n) (hm : opens [t] + n = closes [t] + m) (h : StaysOpen m ts) :
    StaysOpen n (t :: ts) := by
  intro q hq
  rcases List.prefix_cons_iff.mp hq with rfl | ⟨r, rfl, hr⟩
  · exact staysOpen_nil hn [] List.prefix_rfl
  · have hlt := h r hr
    rw [closes_cons, opens_cons]
    omega

theorem StaysOpen.tail (hm : opens [t] + n = closes [t] + m) (h : StaysOpen n (t :: ts)) :
    StaysOpen m ts := by
  intro q hq
  have hlt := h (t :: q) (List.cons_prefix_cons.mpr ⟨rfl, hq⟩)
  rw [closes_cons, opens_cons] at hlt
  omega

theorem Closing.cons (hn : 0 < n) (hm : opens [t] + n = closes [t] + m) (h : Closing m p) :
    Closing n (t :: p) where
  count := by
    rw [closes_cons, opens_cons, h.count]
    omega
  before := by
    intro q hq hne
    rcases List.prefix_cons_iff.mp hq with rfl | ⟨r, rfl, hr⟩
    · exact staysOpen_nil hn [] List.prefix_rfl
    · have hlt := h.before r hr fun heq => hne (heq ▸ rfl)
      rw [closes_cons, opens_cons]
      omega

theorem Closing.tail (hm : opens [t] + n = closes [t] + m) (h : Closing n (t :: p)) :
    Closing m p where
  count := by
    have hcount := h.count
    rw [closes_cons, opens_cons] at hcount
    omega
  before := by
    intro q hq hne
    have hlt := h.before (t :: q) (List.cons_prefix_cons.mpr ⟨rfl, hq⟩)
      fun heq => hne (List.cons.inj heq).2
    rw [closes_cons, opens_cons] at hlt
    omega

theorem closing_nil : Closing 0 [] where
  count := rfl
  before _ hq hne := absurd (List.prefix_nil.mp hq) hne

/-- A token opens one list at most or closes one, never both. -/
theorem exists_open_after (t : Token) (hn : 0 < n) : ∃ m, opens [t] + n = closes [t] + m := by
  obtain ⟨x, line⟩ := t
  cases x with
  | rparen => exact ⟨n - 1, by simp [opens, closes]; omega⟩
  | lparen => exact ⟨n + 1, by simp [opens, closes]; omega⟩
  | _ => exact ⟨n, by simp [opens, closes]⟩

/-- **The count does not jump.** Tokens leave some of `n` lists open throughout, or a prefix closes
all of them for the first time. -/
theorem exists_closing (hn : 0 < n) (ts : List Token) :
    StaysOpen n ts ∨ ∃ p, p <+: ts ∧ Closing n p := by
  induction ts generalizing n with
  | nil => exact Or.inl (staysOpen_nil hn)
  | cons t ts ih =>
      obtain ⟨m, hm⟩ := exists_open_after t hn
      rcases Nat.eq_zero_or_pos m with rfl | hpos
      · exact Or.inr ⟨[t], List.prefix_append [t] ts, closing_nil.cons hn hm⟩
      · rcases ih hpos with hopen | ⟨p, hp, hclosing⟩
        · exact Or.inl (hopen.cons hn hm)
        · exact Or.inr ⟨t :: p, List.cons_prefix_cons.mpr ⟨rfl, hp⟩, hclosing.cons hn hm⟩

/-- Tokens that close all lists do not stay open. -/
theorem exists_closing_of_count (hn : 0 < n) (h : opens ts + n ≤ closes ts) :
    ∃ p, p <+: ts ∧ Closing n p :=
  (exists_closing hn ts).resolve_left fun hopen =>
    absurd (hopen ts List.prefix_rfl) (Nat.not_lt.mpr h)

/-! ## The reader finds the first closing prefix -/

/-- The tokens before the first end of the program. -/
def untilEnd (ts : List Token) : List Token := ts.takeWhile fun t => t.lexeme ≠ .eof

theorem untilEnd_cons (h : t.lexeme ≠ .eof) : untilEnd (t :: ts) = t :: untilEnd ts := by
  rw [untilEnd, List.takeWhile_cons_of_pos (by simpa using h), untilEnd]

theorem not_eof_of_prefix_untilEnd (h : p <+: untilEnd ts) : ∀ t ∈ p, t.lexeme ≠ .eof := by
  intro t ht
  simpa using List.mem_takeWhile_imp (h.subset ht)

namespace Tree

/-- **One token of the reader in terms of the count.** `k` parentheses of a list that is passed over
and the lists of `outer` and the innermost one are open. Either the token closes the last of them, or
the reader goes on with as many open lists as the token leaves. -/
theorem build_step {t : Token} (ht : t.lexeme ≠ .eof) {k m : Nat} {inner : List Tree}
    {outer : List (List Tree)} (hm : opens [t] + (k + outer.length + 1) = closes [t] + m) :
    (m = 0 ∧ ∃ us, ∀ ts, build k inner outer (t :: ts) = .list us) ∨
      ∃ k' inner' outer', m = k' + outer'.length + 1 ∧
        ∀ ts, build k inner outer (t :: ts) = build k' inner' outer' ts := by
  obtain ⟨x, line⟩ := t
  rcases x.kinds with rfl | rfl | rfl | ⟨a, ha⟩
  · exact absurd rfl ht
  · have hm' : m = k + outer.length + 2 := by
      simp [opens, closes] at hm
      omega
    right
    cases k with
    | zero =>
        by_cases h : outer.length + 1 < maxDepth
        · exact ⟨0, [], inner :: outer, by simpa using hm', fun ts => build_lparen h⟩
        · exact ⟨1, inner, outer, by omega, fun ts => build_lparen_of_le (Nat.not_lt.mp h)⟩
    | succ k => exact ⟨k + 2, inner, outer, by omega, fun ts => build_lparen_skipped⟩
  · have hm' : m = k + outer.length := by
      simp [opens, closes] at hm
      omega
    match k, outer with
    | 0, [] => exact Or.inl ⟨hm', inner.reverse, fun ts => build_rparen_outermost⟩
    | 0, around :: outer =>
        exact Or.inr ⟨0, _, outer, by simpa using hm', fun ts => build_rparen⟩
    | 1, outer => exact Or.inr ⟨0, _, outer, by omega, fun ts => build_rparen_passed⟩
    | k + 2, outer => exact Or.inr ⟨k + 1, inner, outer, by omega, fun ts => build_rparen_skipped⟩
  · have hm' : m = k + outer.length + 1 := by
      cases x with
      | number n => simpa [opens, closes] using hm.symm
      | text s => simpa [opens, closes] using hm.symm
      | name s => simpa [opens, closes] using hm.symm
      | _ => cases ha
    right
    cases k with
    | zero => exact ⟨0, a :: inner, outer, hm', fun ts => build_atom ha⟩
    | succ k => exact ⟨k + 1, inner, outer, hm', fun ts => build_atom_skipped ha⟩

/-- **A closing prefix ends the program**, whatever follows. -/
theorem build_of_closing {k : Nat} {inner : List Tree} {outer : List (List Tree)}
    (hp : Closing (k + outer.length + 1) p) (hend : ∀ t ∈ p, t.lexeme ≠ .eof) :
    ∃ us, ∀ rest, build k inner outer (p ++ rest) = .list us := by
  induction p generalizing k inner outer with
  | nil => exact absurd hp.count (by simp)
  | cons t p ih =>
      obtain ⟨m, hm⟩ := exists_open_after t (Nat.succ_pos (k + outer.length))
      rcases build_step (hend t List.mem_cons_self) hm with
        ⟨_, us, hus⟩ | ⟨k', inner', outer', rfl, hstep⟩
      · exact ⟨us, fun rest => hus (p ++ rest)⟩
      · obtain ⟨us, hus⟩ := ih (hp.tail hm) fun u hu => hend u (List.mem_cons_of_mem t hu)
        exact ⟨us, fun rest => (hstep (p ++ rest)).trans (hus rest)⟩

/-- A program ends with the first prefix that closes the outermost list. -/
theorem build_closing_prefix {body r : List Token} (hr : r <+: untilEnd body) (h : Closing 1 r) :
    ∃ us, build 0 [] [] r = .list us ∧ build 0 [] [] body = .list us := by
  have hend : ∃ us, ∀ rest, build 0 [] [] (r ++ rest) = .list us :=
    build_of_closing h (not_eof_of_prefix_untilEnd hr)
  obtain ⟨us, hus⟩ := hend
  obtain ⟨rest, rfl⟩ := hr.trans (List.takeWhile_prefix _)
  exact ⟨us, List.append_nil r ▸ hus [], hus rest⟩

/-- **Tokens that stay open up to the end of the program give no list**, but the remark that the
program is unterminated. -/
theorem build_of_staysOpen {k : Nat} {inner : List Tree} {outer : List (List Tree)}
    (h : StaysOpen (k + outer.length + 1) (untilEnd ts)) :
    build k inner outer ts = unterminated := by
  induction ts generalizing k inner outer with
  | nil => exact build_nil
  | cons t ts ih =>
      by_cases ht : t.lexeme = .eof
      · obtain ⟨x, line⟩ := t
        rw [show x = .eof from ht, build_eof]
      · rw [untilEnd_cons ht] at h
        obtain ⟨m, hm⟩ := exists_open_after t (Nat.succ_pos (k + outer.length))
        rcases build_step ht hm with ⟨rfl, _⟩ | ⟨k', inner', outer', rfl, hstep⟩
        · exact absurd (h [t] (List.prefix_append [t] _)) (by rw [hm]; exact Nat.lt_irrefl _)
        · rw [hstep, ih (h.tail hm)]

/-! ## Programs -/

/-- Whether a token list begins with an opening parenthesis. -/
def StartsOpen (ts : List Token) : Prop := ts.head?.map Token.lexeme = some .lparen

instance (ts : List Token) : Decidable (StartsOpen ts) :=
  inferInstanceAs (Decidable (_ = _))

/-- The tokens of a program: those before its first end, with an opening parenthesis in front unless
there is one. -/
def framed (ts : List Token) : List Token :=
  if StartsOpen (untilEnd ts) then untilEnd ts else ⟨.lparen, 1⟩ :: untilEnd ts

/-- A first part of a program that is not empty and in which as many parentheses close as open. -/
def ClosedPrefix (p ws : List Token) : Prop := p <+: ws ∧ p ≠ [] ∧ closes p = opens p

/-- A closed first part of a program than which no other is shorter. -/
def ShortestClosedPrefix (p ws : List Token) : Prop :=
  ClosedPrefix p ws ∧ ∀ q, ClosedPrefix q ws → p.length ≤ q.length

/-- If there is a closed first part, one of them is the shortest. -/
theorem exists_shortestClosedPrefix {ws : List Token} (h : ∃ p, ClosedPrefix p ws) :
    ∃ p, ShortestClosedPrefix p ws := by
  classical
  have hlength : ∃ k p, ClosedPrefix p ws ∧ p.length = k := by
    obtain ⟨p, hp⟩ := h
    exact ⟨p.length, p, hp, rfl⟩
  obtain ⟨p, hp, hshort⟩ := Nat.find_spec hlength
  refine ⟨p, hp, fun q hq => ?_⟩
  rw [hshort]
  exact Nat.find_min' hlength ⟨q, hq, rfl⟩

/-- A parenthesis in front of a program makes no difference if there is none. -/
theorem parse_of_not_startsOpen (h : ¬StartsOpen ts) :
    Tree.parse ts = ⟨build 0 [] [] ts, [.missingParen]⟩ := by
  unfold Tree.parse
  split
  · exact absurd rfl h
  · rfl

/-- The reader reports at most that the first parenthesis is missing. -/
theorem parse_diagnostics (ts : List Token) :
    (Tree.parse ts).diagnostics = if StartsOpen ts then [] else [.missingParen] := by
  by_cases h : StartsOpen ts
  · cases ts with
    | nil => cases h
    | cons t body =>
        obtain ⟨x, line⟩ := t
        obtain rfl : x = .lparen := by simpa [StartsOpen] using h
        rw [if_pos h]
        rfl
  · rw [if_neg h, parse_of_not_startsOpen h]

theorem startsOpen_untilEnd : StartsOpen (untilEnd ts) ↔ StartsOpen ts := by
  cases ts with
  | nil => exact Iff.rfl
  | cons t ts =>
      by_cases ht : t.lexeme = .eof
      · rw [untilEnd, List.takeWhile_cons_of_neg (by simpa using ht)]
        simp [StartsOpen, ht]
      · rw [untilEnd_cons ht]
        exact Iff.rfl

/-- **A program is read from behind its first parenthesis**, which is put in front where it is
missing. -/
theorem exists_body (ts : List Token) :
    ∃ line body, framed ts = ⟨.lparen, line⟩ :: untilEnd body ∧
      (Tree.parse ts).tree = build 0 [] [] body := by
  by_cases h : StartsOpen ts
  · cases ts with
    | nil => cases h
    | cons t body =>
        obtain ⟨x, line⟩ := t
        obtain rfl : x = .lparen := by simpa [StartsOpen] using h
        refine ⟨line, body, ?_, rfl⟩
        rw [framed, if_pos (startsOpen_untilEnd.mpr h), untilEnd_cons (by simp)]
  · refine ⟨1, ts, ?_, by rw [parse_of_not_startsOpen h]⟩
    rw [framed, if_neg (startsOpen_untilEnd.not.mpr h)]

/-- A closed first part of a program is a parenthesis and tokens that close one list at least. -/
theorem exists_closing_of_closedPrefix {p us : List Token} {line : Nat}
    (h : ClosedPrefix p (⟨.lparen, line⟩ :: us)) :
    ∃ r, p = ⟨.lparen, line⟩ :: r ∧ r <+: us ∧ closes r = opens r + 1 := by
  obtain ⟨hp, hne, hcount⟩ := h
  rcases List.prefix_cons_iff.mp hp with rfl | ⟨r, rfl, hr⟩
  · exact absurd rfl hne
  · refine ⟨r, rfl, hr, ?_⟩
    rw [closes_cons, opens_cons] at hcount
    simp [opens, closes] at hcount ⊢
    omega

theorem closedPrefix_of_closing {r us : List Token} {line : Nat} (hr : r <+: us)
    (h : Closing 1 r) : ClosedPrefix (⟨.lparen, line⟩ :: r) (⟨.lparen, line⟩ :: us) := by
  refine ⟨List.cons_prefix_cons.mpr ⟨rfl, hr⟩, List.cons_ne_nil _ _, ?_⟩
  rw [closes_cons, opens_cons, h.count]
  simp [opens, closes]
  omega

/-- **A program is a list or unterminated**, and a list exactly if it has a closed first part. -/
theorem parse_list_or_unterminated (ts : List Token) :
    ((∃ p, ClosedPrefix p (framed ts)) ∧ ∃ us, (Tree.parse ts).tree = .list us) ∨
      ((¬∃ p, ClosedPrefix p (framed ts)) ∧ (Tree.parse ts).tree = unterminated) := by
  obtain ⟨line, body, hframed, hparse⟩ := exists_body ts
  rw [hframed, hparse]
  rcases exists_closing Nat.one_pos (untilEnd body) with hopen | ⟨r, hr, hclosing⟩
  · refine Or.inr ⟨?_, build_of_staysOpen hopen⟩
    rintro ⟨p, hp⟩
    obtain ⟨r, rfl, hr, hcount⟩ := exists_closing_of_closedPrefix hp
    exact absurd (hopen r hr) (by rw [hcount]; exact Nat.lt_irrefl _)
  · obtain ⟨us, _, hus⟩ := build_closing_prefix hr hclosing
    exact Or.inl ⟨⟨_, closedPrefix_of_closing hr hclosing⟩, us, hus⟩

/-- **Only the shortest closed first part of a program is read.** -/
theorem parse_shortestClosedPrefix {p : List Token} (h : ShortestClosedPrefix p (framed ts)) :
    (Tree.parse p).tree = (Tree.parse ts).tree := by
  obtain ⟨line, body, hframed, hparse⟩ := exists_body ts
  rw [hframed] at h
  obtain ⟨r, rfl, hr, hcount⟩ := exists_closing_of_closedPrefix h.1
  -- a shorter prefix would close the list too
  obtain ⟨r', hr', hclosing⟩ := exists_closing_of_count Nat.one_pos (Nat.le_of_eq hcount.symm)
  have hshort := h.2 _ (closedPrefix_of_closing (hr'.trans hr) hclosing)
  rw [List.length_cons, List.length_cons] at hshort
  obtain rfl : r' = r := hr'.eq_of_length_le (Nat.le_of_succ_le_succ hshort)
  obtain ⟨us, hfirst, hall⟩ := build_closing_prefix hr hclosing
  rw [hparse, hall, ← hfirst]
  rfl

/-- **What decides the result of reading tokens.** The tree is a list exactly if the program has a
closed first part, and a remark otherwise. The shortest closed first part decides the tree; neither
what follows nor an end of the program after it matters. The one thing that is ever reported, once, is
that the first token is no opening parenthesis, and then the tree is as if there were one. -/
theorem parse_complete_iff (ts : List Token) :
    ((∃ us, (Tree.parse ts).tree = .list us) ↔ ∃ p, ClosedPrefix p (framed ts)) ∧
    ((¬∃ us, (Tree.parse ts).tree = .list us) →
      (Tree.parse ts).tree = .error "unterminated list") ∧
    ((∃ p, ClosedPrefix p (framed ts)) → ∃ p, ShortestClosedPrefix p (framed ts)) ∧
    (∀ p, ShortestClosedPrefix p (framed ts) → (Tree.parse ts).tree = (Tree.parse p).tree) ∧
    (Tree.parse ts).diagnostics.map Diagnostic.message
      = (if StartsOpen ts then [] else ["left parenthesis not found"]) ∧
    (¬StartsOpen ts → ∀ line, (Tree.parse ts).tree = (Tree.parse (⟨.lparen, line⟩ :: ts)).tree) := by
  refine ⟨?_, ?_, exists_shortestClosedPrefix, fun p hp => (parse_shortestClosedPrefix hp).symm,
    ?_, ?_⟩
  · rcases parse_list_or_unterminated ts with ⟨hp, hlist⟩ | ⟨hp, htree⟩
    · exact iff_of_true hlist hp
    · refine iff_of_false ?_ hp
      rintro ⟨us, hus⟩
      rw [htree] at hus
      cases hus
  · intro hlist
    rcases parse_list_or_unterminated ts with ⟨_, h⟩ | ⟨_, htree⟩
    · exact absurd h hlist
    · exact htree
  · rw [parse_diagnostics]
    split <;> rfl
  · intro h line
    rw [parse_of_not_startsOpen h]
    rfl

end Tree
end FormLang
