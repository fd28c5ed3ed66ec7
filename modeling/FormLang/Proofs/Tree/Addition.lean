import FormLang.Proofs.Tree.Skipped

/-!
# `FormLang.Proofs.Tree.Addition` — what a sum makes of whole numbers and texts

Addition has two meanings, and changes from the one to the other at most once. As long as its operands are
whole numbers it sums them. The first text makes a text of what has been summed, and all operands behind it
are joined to this as they are displayed, numbers too. A list is no operand of either kind: it is left out,
with one report, and makes no difference to what comes of the others.

## Contents
- `Value.IsSummand`: whole numbers and texts; `Value.SumsTo`: what they amount to.
- `combine_summand`: they can always be combined.
- `foldl_absorb_ints`, `foldl_absorb_text`: the two phases of a sum; `foldl_absorb_first_text`: both.
- `sumsTo_iff`: whole numbers and texts amount to what a fold makes of them.
- `foldl_absorb_filter`: operands that are not accepted make no difference.
- `judged_add`: which operands are left out.
- `evaluate_add`: the value of a sum and what it reports.
-/

namespace FormLang

/-! ## Whole numbers and texts -/

namespace Value

/-- A whole number or a text. -/
inductive IsSummand : Value → Prop where
  | int (n : Int) : IsSummand (.int n)
  | text (s : String) : IsSummand (.text s)

/-- What whole numbers and texts amount to when they are added from left to right. -/
inductive SumsTo : List Value → List Value → Prop where
  | nothing : SumsTo [] []
  | ints {ns : List Int} (nonempty : ns ≠ []) : SumsTo (ns.map int) [.int (ns.foldl (· + ·) 0)]
  /-- The whole numbers before the first text are summed, if there are any. Behind it nothing is. -/
  | text (ns : List Int) (s : String) (rest : List Value) :
      SumsTo (ns.map int ++ .text s :: rest)
        [.text ((if ns = [] then "" else (Value.int (ns.foldl (· + ·) 0)).display)
          ++ String.join ((Value.text s :: rest).map display))]

variable {v : Value} {vs : List Value}

theorem IsSummand.isScalar (h : v.IsSummand) : v.isScalar = true := by
  cases h with
  | int n => rfl
  | text s => rfl

/-- Whole numbers and texts are whole numbers only, or whole numbers up to a first text. -/
theorem exists_first_text (h : ∀ v ∈ vs, v.IsSummand) :
    (∃ ns : List Int, vs = ns.map int) ∨
      ∃ (ns : List Int) (s : String) (rest : List Value), vs = ns.map int ++ .text s :: rest := by
  induction vs with
  | nil => exact .inl ⟨[], rfl⟩
  | cons v vs ih =>
      cases h v List.mem_cons_self with
      | int n =>
          rcases ih fun w hw => h w (List.mem_cons_of_mem _ hw) with ⟨ns, rfl⟩ | ⟨ns, s, rest, rfl⟩
          · exact .inl ⟨n :: ns, rfl⟩
          · exact .inr ⟨n :: ns, s, rest, rfl⟩
      | text s => exact .inr ⟨[], s, vs, rfl⟩

end Value

namespace Operation

open Value

variable {v : Value} {vs r : List Value} {soFar : Option Value} {as : List Evaluated}

/-- **Whole numbers and texts can always be combined**, and give a whole number or a text. -/
theorem combine_summand (hs : ∀ a, soFar = some a → a.IsSummand) (hv : v.IsSummand) :
    ∃ r, add.combine soFar v = .ok r ∧ r.IsSummand := by
  cases soFar with
  | none => exact ⟨v, combine_none_of_accepts hv.isScalar, hv⟩
  | some a =>
      cases hs a rfl with
      | int m =>
          cases hv with
          | int n => exact ⟨.int (m + n), rfl, .int _⟩
          | text r => exact ⟨.text ((Value.int m).display ++ r), rfl, .text _⟩
      | text s =>
          cases hv with
          | int n => exact ⟨.text (s ++ (Value.int n).display), rfl, .text _⟩
          | text r => exact ⟨.text (s ++ r), rfl, .text _⟩

/-! ## Two phases -/

/-- **Whole numbers are summed.** -/
theorem foldl_absorb_ints (m : Int) (ns : List Int) :
    (ns.map int).foldl add.absorb (some (.int m)) = some (.int (ns.foldl (· + ·) m)) := by
  induction ns generalizing m with
  | nil => rfl
  | cons n ns ih =>
      have hstep : add.absorb (some (.int m)) (.int n) = some (.int (m + n)) := rfl
      rw [List.map_cons, List.foldl_cons, hstep, ih, List.foldl_cons]

theorem foldl_absorb_none_ints (ns : List Int) :
    (ns.map int).foldl add.absorb none =
      if ns = [] then none else some (.int (ns.foldl (· + ·) 0)) := by
  cases ns with
  | nil => rfl
  | cons n ns =>
      have hfirst : add.absorb none (.int n) = some (.int n) := rfl
      rw [List.map_cons, List.foldl_cons, hfirst, foldl_absorb_ints, if_neg (List.cons_ne_nil n ns),
        List.foldl_cons, Int.zero_add]

/-- **Behind a text the displays of all operands are joined to it.** -/
theorem foldl_absorb_text (s : String) (h : ∀ v ∈ vs, v.isScalar = true) :
    vs.foldl add.absorb (some (.text s)) = some (.text (s ++ String.join (vs.map display))) := by
  induction vs generalizing s with
  | nil => simp
  | cons v vs ih =>
      have hv : add.accepts v = true := h v List.mem_cons_self
      have hstep : add.absorb (some (.text s)) v = some (.text (s ++ v.display)) := by
        unfold absorb combine
        rw [hv]
        rfl
      rw [List.foldl_cons, hstep, ih _ fun w hw => h w (List.mem_cons_of_mem v hw), List.map_cons,
        String.join_cons, String.append_assoc]

/-- What the whole numbers before the first text amount to stands in front of it, if there are any. -/
theorem foldl_absorb_first_text (ns : List Int) (s : String) (h : ∀ v ∈ vs, v.isScalar = true) :
    (ns.map int ++ .text s :: vs).foldl add.absorb none
      = some (.text ((if ns = [] then "" else (Value.int (ns.foldl (· + ·) 0)).display)
          ++ String.join ((Value.text s :: vs).map display))) := by
  have hfirst : add.absorb ((ns.map int).foldl add.absorb none) (.text s)
      = some (.text ((if ns = [] then "" else (Value.int (ns.foldl (· + ·) 0)).display) ++ s)) := by
    rw [foldl_absorb_none_ints]
    split
    · rw [String.empty_append]
      rfl
    · rfl
  rw [List.foldl_append, List.foldl_cons, hfirst, foldl_absorb_text _ h, List.map_cons,
    String.join_cons, String.append_assoc]
  rfl

/-- **Whole numbers and texts amount to what a fold makes of them.** -/
theorem sumsTo_iff (h : ∀ v ∈ vs, v.IsSummand) :
    SumsTo vs r ↔ r = (vs.foldl add.absorb none).toList := by
  have hscalar : ∀ v ∈ vs, v.isScalar = true := fun v hv => (h v hv).isScalar
  constructor
  · intro hsum
    cases hsum with
    | nothing => rfl
    | ints nonempty =>
        rw [foldl_absorb_none_ints, if_neg nonempty]
        rfl
    | text ns s rest =>
        obtain ⟨-, hrest⟩ := List.forall_mem_cons.mp (List.forall_mem_append.mp hscalar).2
        rw [foldl_absorb_first_text ns s hrest]
        rfl
  · rintro rfl
    rcases exists_first_text h with ⟨ns, rfl⟩ | ⟨ns, s, rest, rfl⟩
    · by_cases hns : ns = []
      · rw [hns]
        exact .nothing
      · rw [foldl_absorb_none_ints, if_neg hns]
        exact .ints hns
    · obtain ⟨-, hrest⟩ := List.forall_mem_cons.mp (List.forall_mem_append.mp hscalar).2
      rw [foldl_absorb_first_text ns s hrest]
      exact .text ns s rest

/-! ## Operands that are left out -/

/-- **Operands that are not accepted make no difference.** -/
theorem foldl_absorb_filter (op : Operation) (soFar : Option Value) (vs : List Value) :
    (vs.filter op.accepts).foldl op.absorb soFar = vs.foldl op.absorb soFar := by
  have hstep : (fun s v => if op.accepts v then op.absorb s v else s) = op.absorb := by
    funext s v
    unfold absorb
    cases hv : op.accepts v with
    | true => rfl
    | false =>
        rw [combine_of_not_accepts hv]
        rfl
  rw [List.foldl_filter, hstep]

/-- **A sum of whole numbers, texts and lists leaves out the lists**, and nothing else. -/
theorem judged_add (hs : ∀ a, soFar = some a → a.IsSummand)
    (h : ∀ a ∈ as, a.operand.IsSummand ∨ ∃ vs, a.operand = .list vs) :
    add.judged soFar as
      = as.map fun a => (a, if a.operand.isScalar then none else some (.invalidOperand "addition")) := by
  induction as generalizing soFar with
  | nil => rfl
  | cons a as ih =>
      have hrest := fun b hb => h b (List.mem_cons_of_mem a hb)
      rw [judged, List.map_cons]
      rcases h a List.mem_cons_self with hsummand | ⟨vs, hlist⟩
      · obtain ⟨r, hr, hr'⟩ := combine_summand hs hsummand
        have habsorb : add.absorb soFar a.operand = some r := by
          unfold absorb
          rw [hr]
        have hrefusal : add.refusal? soFar a.operand = none := by
          unfold refusal?
          rw [hr]
        have hnext : ∀ b, some r = some b → b.IsSummand := fun b hb => Option.some.inj hb ▸ hr'
        rw [habsorb, hrefusal, ih hnext hrest, hsummand.isScalar]
        rfl
      · have hrefusal : add.refusal? soFar a.operand = some (.invalidOperand "addition") := by
          rw [hlist]
          rfl
        have hscalar : a.operand.isScalar = false := by
          rw [hlist]
          rfl
        rw [absorb_of_refusal? hrefusal, hrefusal, ih hs hrest, hscalar]
        rfl

end Operation

/-! ## Sums -/

/-- The operands that a sum takes. -/
def Evaluated.summands (as : List Evaluated) : List Value :=
  (as.map operand).filter Value.isScalar

namespace Tree

open FormLang.Action

variable {e e' : Env} {as : List Evaluated}

/-- **A sum of whole numbers and texts.** Let the operands of `add` be whole numbers, texts and lists, and
let the arguments be evaluated one after the other. The command reports what each argument reports by
itself and, right after this, for each list that it is no operand. It reports nothing else. Its value is
what the other operands amount to, and they amount to nothing else. -/
theorem evaluate_add (has : Evaluated.InTurn e as e')
    (hkinds : ∀ a ∈ as, a.operand.IsSummand ∨ ∃ vs, a.operand = .list vs) :
    ∃ r, (list (.name "add" :: as.map Evaluated.tree)).evaluate.run e =
        ⟨.ok (.list r), e', as.flatMap fun a =>
          a.events ++ if a.operand.isScalar then [] else [.error (.invalidOperand "addition")]⟩ ∧
      ∀ r', Value.SumsTo (Evaluated.summands as) r' ↔ r' = r := by
  have hsummands : ∀ v ∈ Evaluated.summands as, v.IsSummand := by
    intro v hv
    obtain ⟨hv, hscalar⟩ := List.mem_filter.mp hv
    obtain ⟨a, ha, rfl⟩ := List.mem_map.mp hv
    rcases hkinds a ha with hsummand | ⟨vs, hlist⟩
    · exact hsummand
    · rw [hlist] at hscalar
      cases hscalar
  have hcombined : Operation.add.combined none as
      = (Evaluated.summands as).foldl Operation.add.absorb none :=
    (Operation.foldl_absorb_filter .add none (as.map Evaluated.operand)).symm
  have hnone : ∀ a, (none : Option Value) = some a → a.IsSummand := fun _ h => by cases h
  have hjudged := Operation.judged_add hnone hkinds
  have hrun := foldOperands_judged .add has none
  rw [hcombined, hjudged, List.flatMap_map] at hrun
  refine ⟨_, ?_, fun r' => Operation.sumsTo_iff hsummands⟩
  rw [evaluate_arithmetic_run rfl hrun]
  congr 2
  funext a
  split <;> rfl

/-- Operands of a sum, with what each of them yields: a number that is bound, a list, the same number looked
up, a text that is logged, another list, and a number with too many digits to be displayed. -/
def summed : List Evaluated :=
  [⟨.list [.name "set", .name "x", .number 2], .list [.int 2], []⟩,
    ⟨.list [], .list [], []⟩,
    ⟨.list [.name "get", .name "x"], .list [.int 2], []⟩,
    ⟨.list [.name "print", .text "a"], .list [.text "a"], [.log (.text "a")]⟩,
    ⟨.list [.list [.number 7], .number 1], .list [.list [.int 7], .int 1], []⟩,
    ⟨.number (Nat.pow 10 4300), .int (Nat.pow 10 4300), []⟩]

/-- The numbers before the text are summed, and the one behind it is not. -/
theorem evaluate_add_summed :
    Evaluated.InTurn Env.empty summed (Env.empty.bind "x" (.int 2)) ∧
    (∀ a ∈ summed, a.operand.IsSummand ∨ ∃ vs, a.operand = .list vs) ∧
    Evaluated.summands summed = [2, 2].map Value.int ++ .text "a" :: [.int (Nat.pow 10 4300)] ∧
    ∃ r, (list (.name "add" :: summed.map Evaluated.tree)).evaluate.run Env.empty =
        ⟨.ok (.list r), Env.empty.bind "x" (.int 2), summed.flatMap fun a =>
          a.events ++ if a.operand.isScalar then [] else [.error (.invalidOperand "addition")]⟩ ∧
      ∀ r', Value.SumsTo (Evaluated.summands summed) r' ↔ r' = r := by
  have hturn : Evaluated.InTurn Env.empty summed (Env.empty.bind "x" (.int 2)) :=
    .cons rfl (.cons rfl (.cons rfl (.cons rfl (.cons rfl (.cons rfl (.nil _))))))
  have hkinds : ∀ a ∈ summed, a.operand.IsSummand ∨ ∃ vs, a.operand = .list vs := by
    simp only [summed, List.forall_mem_cons]
    exact ⟨.inl (.int 2), .inr ⟨_, rfl⟩, .inl (.int 2), .inl (.text "a"), .inr ⟨_, rfl⟩,
      .inl (.int _), fun _ h => absurd h List.not_mem_nil⟩
  exact ⟨hturn, hkinds, rfl, evaluate_add hturn hkinds⟩

end Tree
end FormLang
