import FormLang.Proofs.Tree.Independence
import FormLang.Proofs.Tree.Operands

/-!
# `FormLang.Proofs.Tree.Skipped` — an operand that is left out is as if it were not there

Whether arithmetic takes an operand depends on what it has combined before: the first operand that it
takes may be zero or of any size, a later one may not. An operand that is left out leaves no trace in
what has been combined. So those that are taken are taken just as well where the others are missing,
and come to the same. Here the arguments bind no variables, since then each of them has the same value
and reports the same wherever it stands.

## Contents
- `Tree.hasSet`: whether a `set` command occurs in a tree; `run_of_hasSet_eq_false`: what a tree without
  one leaves behind.
- `Evaluated`, `Evaluated.InTurn`: an argument with its value and with what it reports by itself, and
  arguments that are evaluated one after the other.
- `Operation.judged`, `Operation.kept`: why arguments are left out, and those that are not.
- `judged_kept`, `combined_kept`: the arguments that are kept, by themselves.
- `foldOperands_judged`: a fold over arguments.
- `evaluate_kept`: a command with and without the operands that it leaves out.
-/

namespace FormLang

/-! ## Trees that bind nothing -/

namespace Tree

mutual

/-- Whether a list that begins with the name of `set` occurs in the tree, be it evaluated or not. -/
def hasSet : Tree → Bool
  | .list ts => hasSetForm ts || hasSetAny ts
  | .number _ | .text _ | .name _ | .error _ | .foreign _ => false

/-- Whether a list that begins with the name of `set` occurs in one of the trees. -/
def hasSetAny : List Tree → Bool
  | [] => false
  | t :: ts => hasSet t || hasSetAny ts

/-- Whether the trees begin with the name of `set`. -/
def hasSetForm : List Tree → Bool
  | .name s :: _ => Command.ofName? s == some .set
  | _ => false

end

variable {t u : Tree} {ts : List Tree}

theorem hasSetAny_eq_false_iff : hasSetAny ts = false ↔ ∀ t ∈ ts, t.hasSet = false := by
  induction ts with
  | nil => simp [hasSetAny]
  | cons t ts ih => simp [hasSetAny, ih]

theorem hasSet_list_eq_false_iff :
    (list ts).hasSet = false ↔ hasSetForm ts = false ∧ ∀ t ∈ ts, t.hasSet = false := by
  rw [hasSet, Bool.or_eq_false_iff, hasSetAny_eq_false_iff]

/-- The nodes that the evaluation of a list comes to inside it are nodes of its elements. -/
theorem exists_of_mem_reachedForm (hu : u ∈ reachedForm ts) : ∃ t ∈ ts, u ∈ t.reached := by
  rw [reachedForm_eq] at hu
  obtain ⟨t, ht, hu⟩ := mem_reachedAll.mp hu
  exact ⟨t, mem_of_mem_visited ht, hu⟩

/-- A list that does not begin with the name of `set` binds nothing itself. -/
theorem setName?_eq_none (h : hasSetForm ts = false) : (list ts).setName? = none := by
  unfold setName?
  split
  · next hnode =>
      obtain rfl := list.inj hnode
      rw [if_neg (by simpa [hasSetForm] using h)]
  · rfl

/-- **A tree without a `set` command binds nothing.** -/
theorem boundNames_eq_nil (h : t.hasSet = false) : t.boundNames = [] := by
  have hnodes : ∀ u ∈ t.reached, u.setName? = none := by
    induction t with
    | list ts ih =>
        obtain ⟨hform, helements⟩ := hasSet_list_eq_false_iff.mp h
        intro u hu
        rw [reached, List.mem_cons] at hu
        rcases hu with rfl | hu
        · exact setName?_eq_none hform
        · obtain ⟨t, ht, hu⟩ := exists_of_mem_reachedForm hu
          exact ih t ht (helements t ht) u hu
    | _ =>
        intro u hu
        rw [List.mem_singleton.mp hu]
        rfl
  rw [boundNames, List.filterMap_eq_nil_iff]
  exact hnodes

/-- The evaluation of a tree without a `set` command leaves the variables as they are. -/
theorem run_of_hasSet_eq_false {r : Except Failure Value} {e e' : Env} {events : List Event}
    (h : t.hasSet = false) (hrun : t.evaluate.run e = ⟨r, e', events⟩) :
    t.evaluate.run e = ⟨r, e, events⟩ := by
  have hconfined : t.evaluate.Confined t.readNames t.boundNames :=
    confined_evaluate fun _ => names_of_mem_reached
  obtain ⟨r', bs, events', hbs, hrun'⟩ := hconfined e
  rw [boundNames_eq_nil h] at hbs
  obtain rfl : bs = [] := List.eq_nil_iff_forall_not_mem.mpr fun b hb =>
    absurd (hbs b hb) List.not_mem_nil
  have hsame := hrun' e fun _ _ => rfl
  rw [hrun] at hsame ⊢
  obtain ⟨-, rfl, -⟩ := Outcome.mk.inj hsame
  rfl

end Tree

/-! ## Arguments that are left out -/

/-- An argument that has been evaluated, with its value and with what it reported by itself. -/
structure Evaluated where
  tree : Tree
  value : Value
  events : List Event
deriving DecidableEq

namespace Evaluated

/-- From the variables the tree yields the value and reports the events. -/
def IsFrom (e : Env) (a : Evaluated) : Prop :=
  ∃ e', a.tree.evaluate.run e = ⟨.ok a.value, e', a.events⟩

/-- What a command sees of the argument. -/
def operand (a : Evaluated) : Value := a.value.unwrap

/-- Evaluated one after the other the arguments lead from the first variables to the last, and each of
them yields its value and reports its events from the variables that those before it have left. -/
inductive InTurn : Env → List Evaluated → Env → Prop where
  | nil (e : Env) : InTurn e [] e
  | cons {a : Evaluated} {as : List Evaluated} {e e₁ e' : Env}
      (first : a.tree.evaluate.run e = ⟨.ok a.value, e₁, a.events⟩) (rest : InTurn e₁ as e') :
      InTurn e (a :: as) e'

/-- Arguments that leave the variables as they are can be evaluated from the same ones. -/
theorem inTurn_of_forall {e : Env} {as : List Evaluated}
    (h : ∀ a ∈ as, a.tree.evaluate.run e = ⟨.ok a.value, e, a.events⟩) : InTurn e as e := by
  induction as with
  | nil => exact .nil e
  | cons a as ih => exact .cons (h a List.mem_cons_self) (ih fun b hb => h b (List.mem_cons_of_mem a hb))

end Evaluated

namespace Operation

variable {op : Operation} {soFar : Option Value} {v : Value} {d : Diagnostic} {as : List Evaluated}

/-- Each argument with the diagnostic that the operation reports for it, if it leaves its operand
out. -/
def judged (op : Operation) (soFar : Option Value) : List Evaluated → List (Evaluated × Option Diagnostic)
  | [] => []
  | a :: as => (a, op.refusal? soFar a.operand) :: judged op (op.absorb soFar a.operand) as

/-- The arguments whose operands are not left out. -/
def kept (op : Operation) (soFar : Option Value) (as : List Evaluated) : List Evaluated :=
  ((op.judged soFar as).filter fun j => j.2.isNone).map Prod.fst

/-- What has been combined after the arguments. -/
def combined (op : Operation) (soFar : Option Value) (as : List Evaluated) : Option Value :=
  (as.map Evaluated.operand).foldl op.absorb soFar

/-- An operand that is left out leaves no trace. -/
theorem absorb_of_refusal? (h : op.refusal? soFar v = some d) : op.absorb soFar v = soFar := by
  unfold refusal? at h
  unfold absorb
  split at h
  · cases h
  · rfl

/-- There are three reasons to leave an operand out. -/
theorem refusal?_cases (h : op.refusal? soFar v = some d) :
    d = .invalidOperand op.noun ∨ d = .divisionByZero ∨ d = .numericOverflow := by
  unfold refusal? at h
  split at h
  · cases h
  · next hcombine =>
      obtain rfl := Option.some.inj h
      unfold combine at hcombine
      split at hcombine
      · split at hcombine
        · cases hcombine
        · rw [apply, applyNumbers.eq_def] at hcombine
          repeat' split at hcombine
          all_goals simp_all
      · exact .inl (Except.error.inj hcombine).symm

theorem kept_cons_of_some (a : Evaluated) (as : List Evaluated)
    (h : op.refusal? soFar a.operand = some d) : op.kept soFar (a :: as) = op.kept soFar as := by
  unfold kept
  rw [judged, h, absorb_of_refusal? h, List.filter_cons_of_neg (by simp)]

theorem kept_cons_of_none (a : Evaluated) (as : List Evaluated)
    (h : op.refusal? soFar a.operand = none) :
    op.kept soFar (a :: as) = a :: op.kept (op.absorb soFar a.operand) as := by
  unfold kept
  rw [judged, h, List.filter_cons_of_pos (by simp), List.map_cons]

/-- **Of the arguments that are kept none is left out when they stand by themselves.** -/
theorem judged_kept (op : Operation) (soFar : Option Value) (as : List Evaluated) :
    op.judged soFar (op.kept soFar as) = (op.kept soFar as).map fun a => (a, none) := by
  induction as generalizing soFar with
  | nil => rfl
  | cons a as ih =>
      cases h : op.refusal? soFar a.operand with
      | none => rw [kept_cons_of_none a as h, judged, h, ih, List.map_cons]
      | some d => rw [kept_cons_of_some a as h, ih]

/-- **The arguments that are kept come to the same as all of them.** -/
theorem combined_kept (op : Operation) (soFar : Option Value) (as : List Evaluated) :
    op.combined soFar (op.kept soFar as) = op.combined soFar as := by
  induction as generalizing soFar with
  | nil => rfl
  | cons a as ih =>
      have hcons : ∀ as', op.combined soFar (a :: as') = op.combined (op.absorb soFar a.operand) as' :=
        fun _ => rfl
      cases h : op.refusal? soFar a.operand with
      | none => rw [kept_cons_of_none a as h, hcons, hcons, ih]
      | some d => rw [kept_cons_of_some a as h, hcons, ih, absorb_of_refusal? h]

/-- All arguments are judged, in order. -/
theorem map_fst_judged (op : Operation) (soFar : Option Value) (as : List Evaluated) :
    (op.judged soFar as).map Prod.fst = as := by
  induction as generalizing soFar with
  | nil => rfl
  | cons a as ih => rw [judged, List.map_cons, ih]

/-- Each argument is judged by its operand and by what has been combined when it is its turn. -/
theorem refusal?_of_mem_judged {j : Evaluated × Option Diagnostic} (h : j ∈ op.judged soFar as) :
    ∃ soFar', j.2 = op.refusal? soFar' j.1.operand := by
  induction as generalizing soFar with
  | nil => exact absurd h List.not_mem_nil
  | cons a as ih =>
      rw [judged, List.mem_cons] at h
      rcases h with rfl | h
      · exact ⟨soFar, rfl⟩
      · exact ih h

/-- The arguments that are kept are some of the arguments. -/
theorem mem_of_mem_kept {a : Evaluated} (h : a ∈ op.kept soFar as) : a ∈ as := by
  unfold kept at h
  obtain ⟨j, hj, rfl⟩ := List.mem_map.mp h
  rw [← map_fst_judged op soFar as]
  exact List.mem_map_of_mem (List.mem_filter.mp hj).1

/-- Every argument is kept, or else there is one diagnostic for it. -/
theorem length_judged (op : Operation) (soFar : Option Value) (as : List Evaluated) :
    ((op.judged soFar as).flatMap fun j => j.1.events ++ j.2.toList.map .error).length
        + (op.kept soFar as).length
      = (as.flatMap Evaluated.events).length + as.length := by
  induction as generalizing soFar with
  | nil => rfl
  | cons a as ih =>
      cases h : op.refusal? soFar a.operand with
      | none =>
          have hrest := ih (op.absorb soFar a.operand)
          rw [kept_cons_of_none a as h, judged, h]
          simp only [List.flatMap_cons, List.length_append, List.length_cons, List.length_map,
            Option.toList_none, List.length_nil]
          omega
      | some d =>
          have hrest := ih soFar
          rw [kept_cons_of_some a as h, judged, h, absorb_of_refusal? h]
          simp only [List.flatMap_cons, List.length_append, List.length_cons, List.length_map,
            Option.toList_some, List.length_nil]
          omega

end Operation

/-! ## Commands with and without them -/

namespace Tree

open FormLang.Action

variable {op : Operation} {s : String} {e e' : Env} {as : List Evaluated}

/-- **A fold over arguments** reports what each of them reports, and right after it why its operand is left
out, if it is. -/
theorem foldOperands_judged (op : Operation) (h : Evaluated.InTurn e as e') (soFar : Option Value) :
    (foldOperands (combineOperand op) soFar (as.map Evaluated.tree)).run e =
      ⟨.ok (op.combined soFar as), e',
        (op.judged soFar as).flatMap fun j => j.1.events ++ j.2.toList.map .error⟩ := by
  induction h generalizing soFar with
  | nil e => rfl
  | @cons a as e e₁ e' first _ ih =>
      have hrest := ih (op.absorb soFar a.operand)
      rw [List.map_cons, foldOperands, bind_run_ok first,
        bind_run_ok (combineOperand_run op soFar a.value.unwrap e₁)]
      show Outcome.mk _ _ _ = _
      rw [show a.value.unwrap = a.operand from rfl, hrest, Operation.judged, List.flatMap_cons,
        List.append_assoc]
      rfl

/-- **An operand that is left out is as if it were not there.** Let the arguments of an arithmetic command
contain no `set` command, and let each of them return. The command reports what each argument reports by
itself and, right after this, for each operand that it leaves out one of three diagnostics. The command on
the other arguments alone has the same value, and leaves out none of their operands. Neither binds a
variable. -/
theorem evaluate_kept (hs : Command.ofName? s = some (.arithmetic op))
    (hset : ∀ a ∈ as, a.tree.hasSet = false) (has : ∀ a ∈ as, a.IsFrom e) :
    ∃ v events,
      (list (.name s :: as.map Evaluated.tree)).evaluate.run e = ⟨.ok v, e, events⟩ ∧
      events = (op.judged none as).flatMap (fun j => j.1.events ++ j.2.toList.map .error) ∧
      (∀ j ∈ op.judged none as, ∀ d, j.2 = some d →
        d = .invalidOperand op.noun ∨ d = .divisionByZero ∨ d = .numericOverflow) ∧
      events.length + (op.kept none as).length = (as.flatMap Evaluated.events).length + as.length ∧
      (list (.name s :: (op.kept none as).map Evaluated.tree)).evaluate.run e
        = ⟨.ok v, e, (op.kept none as).flatMap Evaluated.events⟩ ∧
      ∀ j ∈ op.judged none (op.kept none as), j.2 = none := by
  have hrun : ∀ a ∈ as, a.tree.evaluate.run e = ⟨.ok a.value, e, a.events⟩ := by
    intro a ha
    obtain ⟨e', hrun⟩ := has a ha
    exact run_of_hasSet_eq_false (hset a ha) hrun
  have hrunKept : ∀ a ∈ op.kept none as, a.tree.evaluate.run e = ⟨.ok a.value, e, a.events⟩ :=
    fun a ha => hrun a (Operation.mem_of_mem_kept ha)
  have hall := foldOperands_judged op (Evaluated.inTurn_of_forall hrun) none
  have hkept := foldOperands_judged op (Evaluated.inTurn_of_forall hrunKept) none
  rw [Operation.combined_kept, Operation.judged_kept] at hkept
  refine ⟨.list (op.combined none as).toList, _, evaluate_arithmetic_run hs hall, rfl, ?_, ?_, ?_, ?_⟩
  · intro j hj d hd
    obtain ⟨soFar, hsoFar⟩ := Operation.refusal?_of_mem_judged hj
    exact Operation.refusal?_cases (hsoFar ▸ hd)
  · exact Operation.length_judged op none as
  · rw [evaluate_arithmetic_run hs hkept, List.flatMap_map]
    simp
  · intro j hj
    rw [Operation.judged_kept] at hj
    obtain ⟨a, -, rfl⟩ := List.mem_map.mp hj
    rfl

/-- Operands of a division, with what each of them yields: a list, the dividend, zero, a text, a number
that is logged, and one that is too large for a double. -/
def quotients : List Evaluated :=
  [⟨.list [], .list [], []⟩, ⟨.number 10, .int 10, []⟩, ⟨.number 0, .int 0, []⟩,
    ⟨.list [.name "add", .text "a", .list []], .list [.text "a"],
      [.error (.invalidOperand "addition")]⟩,
    ⟨.list [.name "print", .number 4], .list [.int 4], [.log (.int 4)]⟩,
    ⟨.number (Nat.pow 10 400), .int (Nat.pow 10 400), []⟩]

/-- Two of them are kept. -/
theorem evaluate_kept_quotients :
    Command.ofName? "divide" = some (.arithmetic .div) ∧
    (∀ a ∈ quotients, a.tree.hasSet = false) ∧ (∀ a ∈ quotients, a.IsFrom Env.empty) ∧
    (Operation.div.kept none quotients).map Evaluated.tree
      = [.number 10, .list [.name "print", .number 4]] ∧
    ∃ v events,
      (list (.name "divide" :: quotients.map Evaluated.tree)).evaluate.run Env.empty
        = ⟨.ok v, Env.empty, events⟩ ∧
      events = (Operation.div.judged none quotients).flatMap
        (fun j => j.1.events ++ j.2.toList.map .error) ∧
      (∀ j ∈ Operation.div.judged none quotients, ∀ d, j.2 = some d →
        d = .invalidOperand Operation.div.noun ∨ d = .divisionByZero ∨ d = .numericOverflow) ∧
      events.length + (Operation.div.kept none quotients).length
        = (quotients.flatMap Evaluated.events).length + quotients.length ∧
      (list (.name "divide" :: (Operation.div.kept none quotients).map Evaluated.tree)).evaluate.run
          Env.empty
        = ⟨.ok v, Env.empty, (Operation.div.kept none quotients).flatMap Evaluated.events⟩ ∧
      ∀ j ∈ Operation.div.judged none (Operation.div.kept none quotients), j.2 = none := by
  have hset : ∀ a ∈ quotients, a.tree.hasSet = false := by decide +kernel
  have hfrom : ∀ a ∈ quotients, a.IsFrom Env.empty := by
    simp only [quotients, List.forall_mem_cons]
    exact ⟨⟨_, rfl⟩, ⟨_, rfl⟩, ⟨_, rfl⟩, ⟨_, rfl⟩, ⟨_, rfl⟩, ⟨_, rfl⟩,
      fun _ h => absurd h List.not_mem_nil⟩
  exact ⟨rfl, hset, hfrom, by decide +kernel, evaluate_kept rfl hset hfrom⟩

end Tree
end FormLang
