import FormLang.Proofs.Tree.Evaluate

/-!
# `FormLang.Proofs.Tree.Operands` — what commands make of the values of their arguments

A command evaluates its arguments one after the other, as a list that is no command does, and deals with
the operand of each as soon as it is there. What comes of the operands, and of the variables, is the same
as if all arguments had been evaluated first; only the events of the command stand among those of its
arguments. For arithmetic this means that its result is a fold over the operands alone. As an operand that
has been taken leaves behind something that can be taken again, a command may as well be given first the
result of the same command on some of its operands.

## Contents
- `exists_of_bind_run`, `exists_of_evaluateAll_cons`: the parts of an evaluation that returns;
  `evaluateAll_cons_run`: the evaluation of its parts.
- `evaluateAll_append`, `mapOperands_append`: arguments in two parts.
- `mapOperands_pure`, `bindVariable_eq`: the operands of arguments, and what they are bound to.
- `Operation.absorb`, `Operation.refusal?`: one more operand, or why it is left out.
- `foldl_absorb_eq_none_iff`, `accepts_foldl_absorb`: what has been combined in the end.
- `foldOperands_append`, `foldOperands_run`: a fold over arguments, in parts and by their values.
- `evaluate_nested`: a command on its own result and further arguments.
-/

namespace FormLang

/-! ## Parts of an evaluation -/

namespace Action

variable {α β : Type} {x : Action α}

/-- What returns has returned in each of its steps. -/
theorem exists_of_bind_run {f : α → Action β} {b : β} {e e'' : Env} {events : List Event}
    (h : (x >>= f).run e = ⟨.ok b, e'', events⟩) :
    ∃ a e' before after, x.run e = ⟨.ok a, e', before⟩ ∧ (f a).run e' = ⟨.ok b, e'', after⟩ ∧
      events = before ++ after := by
  rw [bind_run] at h
  split at h
  · next a e' before hrun =>
      obtain ⟨hresult, henv, hevents⟩ := Outcome.mk.inj h
      refine ⟨a, e', before, ((f a).run e').events, hrun, ?_, hevents.symm⟩
      rw [← hresult, ← henv]
  · cases h

theorem exists_of_map_run {f : α → β} {b : β} {e e' : Env} {events : List Event}
    (h : (f <$> x).run e = ⟨.ok b, e', events⟩) :
    ∃ a, x.run e = ⟨.ok a, e', events⟩ ∧ f a = b := by
  rw [map_run] at h
  obtain ⟨hresult, henv, hevents⟩ := Outcome.mk.inj h
  cases hx : (x.run e).result with
  | error failure =>
      rw [hx] at hresult
      cases hresult
  | ok a =>
      rw [hx] at hresult
      exact ⟨a, Outcome.ext hx henv hevents, Except.ok.inj hresult⟩

end Action

namespace Tree

open FormLang.Action

variable {t : Tree} {ts : List Tree} {ws : List Value} {e e' : Env} {events : List Event}

/-- Trees that have been evaluated one after the other have been evaluated each. -/
theorem exists_of_evaluateAll_cons (h : (evaluateAll (t :: ts)).run e = ⟨.ok ws, e', events⟩) :
    ∃ w us e₁ before after, ws = w :: us ∧ t.evaluate.run e = ⟨.ok w, e₁, before⟩ ∧
      (evaluateAll ts).run e₁ = ⟨.ok us, e', after⟩ ∧ events = before ++ after := by
  rw [evaluateAll] at h
  obtain ⟨w, e₁, before, after, hw, hrest, hevents⟩ := exists_of_bind_run h
  obtain ⟨us, hus, hws⟩ := exists_of_map_run hrest
  exact ⟨w, us, e₁, before, after, hws.symm, hw, hus, hevents⟩

/-- Trees that are evaluated one after the other yield the values that each of them yields. -/
theorem evaluateAll_cons_run {w : Value} {us : List Value} {e₁ : Env} {before after : List Event}
    (ht : t.evaluate.run e = ⟨.ok w, e₁, before⟩)
    (hts : (evaluateAll ts).run e₁ = ⟨.ok us, e', after⟩) :
    (evaluateAll (t :: ts)).run e = ⟨.ok (w :: us), e', before ++ after⟩ := by
  rw [evaluateAll, bind_run_ok ht, map_run, hts]
  rfl

/-- Trees are evaluated one part after the other. -/
theorem evaluateAll_append (ts us : List Tree) :
    evaluateAll (ts ++ us) = evaluateAll ts >>= fun vs => (vs ++ ·) <$> evaluateAll us := by
  induction ts with
  | nil => simp [evaluateAll]
  | cons t ts ih => simp [evaluateAll, ih]

theorem mapOperands_append (f : Value → Action Value) (ts us : List Tree) :
    mapOperands f (ts ++ us) = mapOperands f ts >>= fun rs => (rs ++ ·) <$> mapOperands f us := by
  induction ts with
  | nil => simp [mapOperands]
  | cons t ts ih => simp [mapOperands, ih]

/-- **The operands of arguments are their values, unwrapped.** -/
theorem mapOperands_pure (ts : List Tree) :
    mapOperands pure ts = List.map Value.unwrap <$> evaluateAll ts := by
  induction ts with
  | nil => rfl
  | cons t ts ih =>
      rw [mapOperands, evaluateAll, ih, map_bind]
      congr 1
      funext v
      rw [pure_bind, Functor.map_map, Functor.map_map]
      rfl

/-- A binding evaluates its arguments first. -/
theorem bindVariable_eq {slot : Tree} {x : String} {args : List Tree}
    (hslot : slot.boundName? = some x) (hargs : args ≠ []) :
    bindVariable (slot :: args) = evaluateAll args >>= fun ws =>
      assign x (packed (ws.map Value.unwrap)) >>= fun _ => pure (ws.map Value.unwrap) := by
  cases args with
  | nil => exact absurd rfl hargs
  | cons t rest => simp [bindVariable, hslot, mapOperands_pure, evaluateAll]

end Tree

/-! ## Arithmetic -/

namespace Operation

variable {op : Operation} {soFar : Option Value} {a v : Value} {vs : List Value}

/-- What has been combined after one more operand. One that is left out changes nothing. -/
def absorb (op : Operation) (soFar : Option Value) (v : Value) : Option Value :=
  match op.combine soFar v with
  | .ok a => some a
  | .error _ => soFar

/-- Why an operand is left out, if it is. -/
def refusal? (op : Operation) (soFar : Option Value) (v : Value) : Option Diagnostic :=
  match op.combine soFar v with
  | .ok _ => none
  | .error d => some d

theorem combine_of_not_accepts (h : op.accepts v = false) :
    op.combine soFar v = .error (.invalidOperand op.noun) := by
  simp [combine, h]

/-- The first operand that is accepted stands for itself. -/
theorem combine_none_of_accepts (h : op.accepts v = true) : op.combine none v = .ok v := by
  simp [combine, h]

theorem absorb_none (op : Operation) (v : Value) :
    op.absorb none v = if op.accepts v then some v else none := by
  unfold absorb
  by_cases h : op.accepts v
  · rw [combine_none_of_accepts h, if_pos h]
  · rw [combine_of_not_accepts (by simpa using h), if_neg h]

theorem isSome_absorb (op : Operation) (a v : Value) : (op.absorb (some a) v).isSome := by
  unfold absorb
  split <;> rfl

theorem isSome_foldl_absorb (op : Operation) (a : Value) (vs : List Value) :
    (vs.foldl op.absorb (some a)).isSome := by
  induction vs generalizing a with
  | nil => rfl
  | cons v vs ih =>
      obtain ⟨b, hb⟩ := Option.isSome_iff_exists.mp (isSome_absorb op a v)
      rw [List.foldl_cons, hb]
      exact ih b

/-- **Nothing has been combined in the end only if no operand is accepted.** -/
theorem foldl_absorb_eq_none_iff :
    vs.foldl op.absorb none = none ↔ ∀ v ∈ vs, op.accepts v = false := by
  induction vs with
  | nil => simp
  | cons v vs ih =>
      rw [List.foldl_cons, absorb_none, List.forall_mem_cons]
      cases hv : op.accepts v with
      | false => simpa using ih
      | true =>
          -- once there is something, nothing takes it away
          have hsome := isSome_foldl_absorb op v vs
          simp [Option.isSome_iff_ne_none.mp hsome]

/-- **What has been combined in the end can be combined again.** -/
theorem accepts_foldl_absorb (hs : ∀ a, soFar = some a → op.accepts a = true)
    (h : vs.foldl op.absorb soFar = some a) : op.accepts a = true := by
  induction vs generalizing soFar with
  | nil => exact hs a h
  | cons v vs ih =>
      refine ih ?_ h
      intro b hb
      unfold absorb at hb
      split at hb
      · next hcombine => exact Option.some.inj hb ▸ accepts_combine hcombine
      · exact hs b hb

end Operation

namespace Tree

open FormLang.Action

variable {op : Operation} {s s' : String} {t : Tree} {ts args : List Tree} {ws : List Value}
  {e e' : Env} {events : List Event}

theorem combineOperand_run (op : Operation) (soFar : Option Value) (v : Value) (e : Env) :
    (combineOperand op soFar v).run e =
      ⟨.ok (op.absorb soFar v), e, (op.refusal? soFar v).toList.map .error⟩ := by
  unfold combineOperand Operation.absorb Operation.refusal?
  cases op.combine soFar v with
  | ok r => rfl
  | error d => rfl

/-- A fold over arguments goes through the first of them and then through the rest. -/
theorem foldOperands_append (f : Option Value → Value → Action (Option Value)) (soFar : Option Value)
    (ts us : List Tree) :
    foldOperands f soFar (ts ++ us) = foldOperands f soFar ts >>= fun r => foldOperands f r us := by
  induction ts generalizing soFar with
  | nil => rw [List.nil_append, foldOperands, pure_bind]
  | cons t ts ih =>
      rw [List.cons_append, foldOperands, foldOperands]
      simp only [ih, bind_assoc]

/-- **What arithmetic makes of arguments depends on their values only**, and leaves the variables as the
arguments do. -/
theorem foldOperands_run (h : (evaluateAll ts).run e = ⟨.ok ws, e', events⟩) (op : Operation)
    (soFar : Option Value) :
    ∃ reported, (foldOperands (combineOperand op) soFar ts).run e =
      ⟨.ok ((ws.map Value.unwrap).foldl op.absorb soFar), e', reported⟩ := by
  -- `soFar` is general, since each operand is combined before the next argument is evaluated
  induction ts generalizing e ws events soFar with
  | nil =>
      rw [evaluateAll, pure_run] at h
      obtain ⟨hws, rfl, -⟩ := Outcome.mk.inj h
      obtain rfl := Except.ok.inj hws
      exact ⟨[], rfl⟩
  | cons t ts ih =>
      obtain ⟨w, us, e₁, before, after, rfl, hw, hus, -⟩ := exists_of_evaluateAll_cons h
      obtain ⟨reported, hreported⟩ := ih hus (op.absorb soFar w.unwrap)
      refine ⟨before ++ ((op.refusal? soFar w.unwrap).toList.map .error ++ reported), ?_⟩
      rw [foldOperands, bind_run_ok hw, bind_run_ok (combineOperand_run op soFar w.unwrap e₁),
        hreported, List.map_cons, List.foldl_cons]

/-- The value of an arithmetic command is a list of what it has combined, if anything. -/
theorem evaluate_arithmetic_run {r : Option Value} (hs : Command.ofName? s = some (.arithmetic op))
    (h : (foldOperands (combineOperand op) none args).run e = ⟨.ok r, e', events⟩) :
    (list (.name s :: args)).evaluate.run e = ⟨.ok (.list r.toList), e', events⟩ := by
  rw [evaluate, map_run, evaluateForm_arithmetic hs, map_run, h]
  rfl

/-! ## Commands inside commands -/

/-- What a command makes of its own result as the first operand: this stands for what it was made of. If
there was nothing to be combined, the result is no operand. -/
theorem combineOperand_own {r : Option Value} (hr : ∀ a, r = some a → op.accepts a = true) (e : Env) :
    (combineOperand op none (Value.list r.toList).unwrap).run e =
      ⟨.ok r, e, if r = none then [.error (.invalidOperand op.noun)] else []⟩ := by
  cases r with
  | none =>
      have hlist : op.accepts (.list []) = false := by cases op <;> rfl
      show (combineOperand op none (.list [])).run e = _
      rw [combineOperand, Operation.combine_of_not_accepts hlist]
      rfl
  | some a =>
      show (combineOperand op none a).run e = _
      rw [combineOperand, Operation.combine_none_of_accepts (hr a rfl)]
      rfl

/-- **Commands of one kind inside each other flatten.** Let an arithmetic command have as its first
argument the same command on some arguments, and let all arguments return. It returns the same value, and
leaves the same variables, as the command on the arguments of both, and it reports the same events in the
same order. Only if none of the operands of the inner command is accepted, it reports besides that the
result of this is no operand, right after what the inner command reports. -/
theorem evaluate_nested {us : List Tree} {ws' : List Value} {e₁ e₂ : Env} {events' : List Event}
    (hs : Command.ofName? s = some (.arithmetic op))
    (hs' : Command.ofName? s' = some (.arithmetic op))
    (hts : (evaluateAll ts).run e = ⟨.ok ws, e₁, events⟩)
    (hus : (evaluateAll us).run e₁ = ⟨.ok ws', e₂, events'⟩) :
    ∃ v w before after,
      (list (.name s' :: ts)).evaluate.run e = ⟨.ok v, e₁, before⟩ ∧
      (list (.name s :: (ts ++ us))).evaluate.run e = ⟨.ok w, e₂, before ++ after⟩ ∧
      (list (.name s :: list (.name s' :: ts) :: us)).evaluate.run e =
        ⟨.ok w, e₂, before
          ++ (if ∃ w ∈ ws, op.accepts w.unwrap then [] else [.error (.invalidOperand op.noun)])
          ++ after⟩ := by
  obtain ⟨before, hbefore⟩ := foldOperands_run hts op none
  generalize hr : (ws.map Value.unwrap).foldl op.absorb none = r at hbefore
  obtain ⟨after, hafter⟩ := foldOperands_run hus op r
  generalize (ws'.map Value.unwrap).foldl op.absorb r = r' at hafter
  have hinner := evaluate_arithmetic_run hs' hbefore
  refine ⟨.list r.toList, .list r'.toList, before, after, hinner, ?_, ?_⟩
  · apply evaluate_arithmetic_run hs
    rw [foldOperands_append, bind_run_ok hbefore, hafter]
  · -- the inner command ends with what the flat one has combined when it comes to the other arguments
    have haccepts : ∀ a, r = some a → op.accepts a = true := fun a ha =>
      Operation.accepts_foldl_absorb (fun _ h => by cases h) (hr.trans ha)
    have hnone : r = none ↔ ¬ ∃ w ∈ ws, op.accepts w.unwrap := by
      rw [← hr, Operation.foldl_absorb_eq_none_iff]
      simp
    apply evaluate_arithmetic_run hs
    rw [foldOperands, bind_run_ok hinner, bind_run_ok (combineOperand_own haccepts e₁), hafter,
      List.append_assoc]
    simp only [hnone, ite_not]

/-- A dividend that is zero behind an operand that counts for nothing, and divisors. -/
def zeroDividend : List Tree :=
  [.list [.name "get", .name "x"], .number 0, .list [.name "print", .number 5],
    .list [.name "set", .name "x", .number 0]]

/-- More divisors: the first is bound to zero by those before, and the second is a list. -/
def moreDivisors : List Tree := [.list [.name "get", .name "x"], .list [.list [], .number 1], .number 2]

/-- Zero is an operand where nothing has been combined yet, in either form. -/
theorem evaluate_nested_zeroDividend :
    Command.ofName? "div" = some (.arithmetic .div) ∧
    Command.ofName? "divide" = some (.arithmetic .div) ∧
    (evaluateAll zeroDividend).run Env.empty =
      ⟨.ok [.list [], .int 0, .list [.int 5], .list [.int 0]], Env.empty.bind "x" (.int 0),
        [.log (.int 5)]⟩ ∧
    (evaluateAll moreDivisors).run (Env.empty.bind "x" (.int 0)) =
      ⟨.ok [.list [.int 0], .list [.list [], .int 1], .int 2], Env.empty.bind "x" (.int 0), []⟩ ∧
    ∃ v w before after,
      (list (.name "divide" :: zeroDividend)).evaluate.run Env.empty =
        ⟨.ok v, Env.empty.bind "x" (.int 0), before⟩ ∧
      (list (.name "div" :: (zeroDividend ++ moreDivisors))).evaluate.run Env.empty =
        ⟨.ok w, Env.empty.bind "x" (.int 0), before ++ after⟩ ∧
      (list (.name "div" :: list (.name "divide" :: zeroDividend) :: moreDivisors)).evaluate.run
          Env.empty =
        ⟨.ok w, Env.empty.bind "x" (.int 0), before
          ++ (if ∃ w ∈ [Value.list [], .int 0, .list [.int 5], .list [.int 0]],
              Operation.div.accepts w.unwrap then [] else [.error (.invalidOperand Operation.div.noun)])
          ++ after⟩ :=
  ⟨rfl, rfl, rfl, rfl, evaluate_nested rfl rfl rfl rfl⟩

end Tree
end FormLang
