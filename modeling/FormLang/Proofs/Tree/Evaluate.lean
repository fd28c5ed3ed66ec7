import FormLang.Proofs.Action
import FormLang.Proofs.Numeral
import FormLang.Proofs.Tree.Reached
import FormLang.Proofs.Value

/-!
# `FormLang.Proofs.Tree.Evaluate` — evaluation returns and stays in its domain

A tree is evaluated to the end, from whatever variables, if none of the nodes that the evaluation comes
to fails: every value that it yields, logs or binds belongs to any domain of values to which the
variables were bound before. This holds in particular of a tree without foreign parts whose numbers can
all be written. The argument follows the evaluator, with one lemma for each of its functions, and goes by
induction on the tree. The arithmetic of a command never meets operands for which it has no meaning.

## Contents
- `Tree.IsOrdinary`: a leaf that can be evaluated wherever it stands.
- `Action.Stays`: an action that returns and stays in a domain.
- `formCases`: what a list of trees is evaluated as.
- `stays_readVariable`, `stays_foldOperands` and their companions; `stays_of_failure?`, `stays_evaluate`.
- `checkedOperand`, `AgreesWhereDefined`: an operation that fails, or does anything, where it is not defined.
- `guardedOperand`, `foldOperands_guarded`: such an operation behind guards, and a fold of it.
-/

namespace FormLang

/-- Whatever the event shows is a value of the domain. -/
def Event.Shows (p : Value → Prop) : Event → Prop
  | .log v => p v
  | .error _ => True

/-- Whatever the event shows is a value of the language. -/
def Event.IsLanguage (event : Event) : Prop := event.Shows Value.IsLanguage

/-- All of the values belong to the domain. -/
def AllIn (p : Value → Prop) (vs : List Value) : Prop := ∀ v ∈ vs, p v

variable {p : Value → Prop}

theorem allIn_nil : AllIn p [] := fun _ hmem => absurd hmem List.not_mem_nil

theorem AllIn.cons {v : Value} {vs : List Value} (hv : p v) (hvs : AllIn p vs) :
    AllIn p (v :: vs) := by
  intro w hmem
  rcases List.mem_cons.mp hmem with rfl | hmem
  · exact hv
  · exact hvs w hmem

/-- Started from variables bound to values of the domain, the action returns, keeps the variables in
the domain and shows only values of the domain. -/
abbrev Action.Stays (p : Value → Prop) {α : Type} (post : α → Prop) (x : Action α) : Prop :=
  x.Returns (Env.Binds p) (Event.Shows p) post

theorem Action.stays_complain (d : Diagnostic) : (complain d).Stays p fun _ => True :=
  returns_complain trivial

namespace Tree

/-- A leaf that is neither foreign nor a number of too many digits. Such a leaf can be written, and it
can be evaluated also where a number stands for the name of a variable. -/
def IsOrdinary : Tree → Prop
  | .number n => n.natAbs < Numeral.limit
  | .foreign _ => False
  | .text _ | .name _ | .list _ | .error _ => True

instance : DecidablePred IsOrdinary
  | .number n => inferInstanceAs (Decidable (n.natAbs < Numeral.limit))
  | .foreign _ => isFalse id
  | .text _ | .name _ | .list _ | .error _ => isTrue trivial

open FormLang.Action

variable {t : Tree} {ts : List Tree}

/-! ## Variables -/

theorem exists_readName? (ht : t.Leaves IsOrdinary) : ∃ x, t.readName? = .ok x := by
  cases t with
  | number n =>
      rw [readName?, Numeral.digitsOrFail_of_lt ht]
      exact ⟨_, rfl⟩
  | foreign v => exact absurd ht id
  | _ => exact ⟨_, rfl⟩

theorem stays_readVariable (hp : Value.IsDomain p)
    (hslot : ∀ slot rest, ts = slot :: rest → ∃ x, slot.readName? = .ok x) :
    (readVariable ts).Stays p (AllIn p) := by
  cases ts with
  | nil =>
      exact (stays_complain .tooFewParameters).bind fun _ _ => returns_pure allIn_nil
  | cons slot rest =>
      obtain ⟨name, hname⟩ := hslot slot rest rfl
      have hread : (ofExcept slot.readName?).Stays p fun _ => True := returns_ofExcept hname trivial
      refine hread.bind fun x _ => ?_
      cases x with
      | none => exact returns_pure allIn_nil
      | some x =>
          have hlookup : (lookup x).Stays p fun bound => ∀ v, bound = some v → p v :=
            returns_lookup fun _ he => he x
          refine hlookup.bind fun bound hbound => ?_
          cases bound with
          | none => exact returns_pure allIn_nil
          | some v => exact returns_pure (hp.elements (hbound v rfl))

theorem packed_mem (hp : Value.IsDomain p) {vs : List Value} (h : AllIn p vs) : p (packed vs) := by
  rw [packed.eq_def]
  split
  · exact h _ List.mem_cons_self
  · exact (hp.list _).mpr h

/-! ## Operands -/

theorem stays_printOperand {v : Value} (hv : p v) : (printOperand v).Stays p p := by
  have hlog : (log v).Stays p fun _ => True := returns_log hv
  exact hlog.bind fun _ _ => returns_pure hv

theorem stays_combineOperand (hp : Value.IsDomain p) (op : Operation) {soFar : Option Value}
    {v : Value} (hs : AllIn p soFar.toList) (hv : p v) :
    (combineOperand op soFar v).Stays p fun s => AllIn p s.toList := by
  rw [combineOperand]
  cases hcombine : op.combine soFar v with
  | ok r => exact returns_pure (allIn_nil.cons (hp.combine hv hcombine))
  | error d => exact (stays_complain d).bind fun _ _ => returns_pure hs

theorem stays_evaluateAll (h : ∀ t ∈ ts, t.evaluate.Stays p p) :
    (evaluateAll ts).Stays p (AllIn p) := by
  induction ts with
  | nil => exact returns_pure allIn_nil
  | cons t ts ih =>
      rw [evaluateAll]
      refine (h t List.mem_cons_self).bind fun v hv => ?_
      exact (ih fun u hu => h u (List.mem_cons_of_mem t hu)).map fun vs hvs => hvs.cons hv

theorem stays_mapOperands (hp : Value.IsDomain p) {f : Value → Action Value}
    (hf : ∀ v, p v → (f v).Stays p p) (h : ∀ t ∈ ts, t.evaluate.Stays p p) :
    (mapOperands f ts).Stays p (AllIn p) := by
  induction ts with
  | nil => exact returns_pure allIn_nil
  | cons t ts ih =>
      rw [mapOperands]
      refine (h t List.mem_cons_self).bind fun v hv => ?_
      refine (hf v.unwrap (hp.unwrap hv)).bind fun r hr => ?_
      exact (ih fun u hu => h u (List.mem_cons_of_mem t hu)).map fun vs hvs => hvs.cons hr

theorem stays_foldOperands (hp : Value.IsDomain p)
    {f : Option Value → Value → Action (Option Value)} {s : Option Value}
    (hf : ∀ s v, AllIn p s.toList → p v → (f s v).Stays p fun s => AllIn p s.toList)
    (hs : AllIn p s.toList) (h : ∀ t ∈ ts, t.evaluate.Stays p p) :
    (foldOperands f s ts).Stays p fun s => AllIn p s.toList := by
  induction ts generalizing s with
  | nil => exact returns_pure hs
  | cons t ts ih =>
      rw [foldOperands]
      refine (h t List.mem_cons_self).bind fun v hv => ?_
      refine (hf s v.unwrap hs (hp.unwrap hv)).bind fun s' hs' => ?_
      exact ih hs' fun u hu => h u (List.mem_cons_of_mem t hu)

theorem stays_bindVariable (hp : Value.IsDomain p)
    (h : ∀ slot values, ts = slot :: values → slot.boundName?.isSome →
      ∀ t ∈ values, t.evaluate.Stays p p) :
    (bindVariable ts).Stays p (AllIn p) := by
  match ts with
  | [] => exact (stays_complain .tooFewParameters).bind fun _ _ => returns_pure allIn_nil
  | [_] => exact (stays_complain .tooFewParameters).bind fun _ _ => returns_pure allIn_nil
  | slot :: t :: ts =>
      rw [bindVariable]
      cases hslot : slot.boundName? with
      | none => exact (stays_complain .invalidName).bind fun _ _ => returns_pure allIn_nil
      | some x =>
          have hvalues := h slot (t :: ts) rfl (by rw [hslot, Option.isSome_some])
          have hmap : (mapOperands pure ts).Stays p (AllIn p) :=
            stays_mapOperands hp (fun v hv => returns_pure hv) fun u hu =>
              hvalues u (List.mem_cons_of_mem t hu)
          refine (hvalues t List.mem_cons_self).bind fun v hv => hmap.bind fun vs hvs => ?_
          have hoperands : AllIn p (v.unwrap :: vs) := hvs.cons (hp.unwrap hv)
          have hassign : (assign x (packed (v.unwrap :: vs))).Stays p fun _ => True :=
            returns_assign fun _ he => he.bind x (packed_mem hp hoperands)
          exact hassign.bind fun _ _ => returns_pure hoperands

/-! ## Trees -/

/-- A list that begins with no name is evaluated element by element. -/
theorem evaluateForm_of_not_name (ht : ∀ s, t ≠ .name s) (ts : List Tree) :
    evaluateForm (t :: ts) = evaluateAll (t :: ts) := by
  cases t with
  | name s => exact absurd rfl (ht s)
  | _ => rfl

section Forms

variable {s : String} {op : Operation} {args : List Tree}

theorem evaluateForm_print (h : Command.ofName? s = some .print) :
    evaluateForm (.name s :: args) = mapOperands printOperand args := by
  simp only [evaluateForm, h]

theorem evaluateForm_arithmetic (h : Command.ofName? s = some (.arithmetic op)) :
    evaluateForm (.name s :: args)
      = Option.toList <$> foldOperands (combineOperand op) none args := by
  simp only [evaluateForm, h]

theorem evaluateForm_set (h : Command.ofName? s = some .set) :
    evaluateForm (.name s :: args) = bindVariable args := by
  simp only [evaluateForm, h]

theorem evaluateForm_get (h : Command.ofName? s = some .get) :
    evaluateForm (.name s :: args) = readVariable args := by
  simp only [evaluateForm, h]

theorem evaluateForm_unknown (h : Command.ofName? s = none) :
    evaluateForm (.name s :: args) = (complain (.unknownCommand s) >>= fun _ => pure [.int 1]) := by
  simp only [evaluateForm, h]

/-- **A list of trees by what it is evaluated as**: nothing, one of the commands, a command that is not
known, or its elements one after the other. -/
@[elab_as_elim]
theorem formCases {motive : List Tree → Prop} (ts : List Tree) (nil : motive [])
    (print : ∀ s args, Command.ofName? s = some .print → motive (.name s :: args))
    (arithmetic : ∀ op s args, Command.ofName? s = some (.arithmetic op) → motive (.name s :: args))
    (set : ∀ s args, Command.ofName? s = some .set → motive (.name s :: args))
    (get : ∀ s args, Command.ofName? s = some .get → motive (.name s :: args))
    (unknown : ∀ s args, Command.ofName? s = none → motive (.name s :: args))
    (data : ∀ t ts, (∀ s, t ≠ .name s) → motive (t :: ts)) : motive ts := by
  cases ts with
  | nil => exact nil
  | cons t args =>
      by_cases hname : ∃ s, t = .name s
      · obtain ⟨s, rfl⟩ := hname
        cases hs : Command.ofName? s with
        | none => exact unknown s args hs
        | some command =>
            cases command with
            | print => exact print s args hs
            | arithmetic op => exact arithmetic op s args hs
            | set => exact set s args hs
            | get => exact get s args hs
      · exact data t args fun s hs => hname ⟨s, hs⟩

end Forms

/-- A list that does not fail itself returns if the elements that are evaluated do. -/
theorem stays_evaluateForm (hp : Value.IsDomain p) (hnode : (list ts).failure? = none)
    (h : ∀ t ∈ visited ts, t.evaluate.Stays p p) : (evaluateForm ts).Stays p (AllIn p) := by
  cases ts using formCases with
  | nil => exact returns_pure allIn_nil
  | print s args hs =>
      rw [visited_print hs] at h
      rw [evaluateForm_print hs]
      exact stays_mapOperands hp (fun v hv => stays_printOperand hv) h
  | arithmetic op s args hs =>
      rw [visited_arithmetic hs] at h
      rw [evaluateForm_arithmetic hs]
      have hfold : (foldOperands (combineOperand op) none args).Stays p
          fun s => AllIn p s.toList :=
        stays_foldOperands hp (fun _ _ hs hv => stays_combineOperand hp op hs hv) allIn_nil h
      exact hfold.map fun _ hs => hs
  | set s args hs =>
      rw [evaluateForm_set hs]
      apply stays_bindVariable hp
      rintro slot values rfl hslot
      rwa [visited_set hs, if_pos hslot] at h
  | get s args hs =>
      rw [evaluateForm_get hs]
      apply stays_readVariable hp
      rintro slot rest rfl
      exact exists_readName?_of_failure? hs hnode
  | unknown s args hs =>
      rw [evaluateForm_unknown hs]
      apply (stays_complain (.unknownCommand s)).bind
      intro _ _
      exact returns_pure (allIn_nil.cons (hp.number _))
  | data t ts hname =>
      rw [visited_of_not_name hname] at h
      rw [evaluateForm_of_not_name hname]
      exact stays_evaluateAll h

/-- **An evaluation that comes to no node that fails returns** and stays in its domain. -/
theorem stays_of_failure? (hp : Value.IsDomain p) (ht : ∀ u ∈ t.reached, u.failure? = none) :
    t.evaluate.Stays p p := by
  induction t with
  | number n => exact returns_pure (hp.number _)
  | text s => exact returns_pure (hp.text s)
  | name s => exact returns_pure (hp.text s)
  | list ts ih =>
      have hnode : (list ts).failure? = none := ht _ List.mem_cons_self
      rw [evaluate]
      refine Returns.map ?_ fun vs hvs => (hp.list vs).mpr hvs
      apply stays_evaluateForm hp hnode
      intro t hvisited
      exact ih t (mem_of_mem_visited hvisited) fun u hu => ht u (mem_reached_list hvisited hu)
  | error message =>
      exact (stays_complain (.malformed message)).bind fun _ _ => returns_pure (hp.text message)
  | foreign v => cases ht _ List.mem_cons_self

/-- What holds of the leaves of a tree holds of those of the nodes that its evaluation comes to. -/
theorem leaves_of_mem_reached {q : Tree → Prop} {u : Tree} (ht : t.Leaves q) (hu : u ∈ t.reached) :
    u.Leaves q := by
  induction t with
  | list ts ih =>
      rw [reached, reachedForm_eq, List.mem_cons] at hu
      rcases hu with rfl | hu
      · exact ht
      · obtain ⟨t, hvisited, hu⟩ := mem_reachedAll.mp hu
        have hmem := mem_of_mem_visited hvisited
        exact ih t hmem (leaves_list.mp ht t hmem) hu
  | _ =>
      rw [reached, List.mem_singleton] at hu
      rwa [hu]

/-- A tree without foreign parts whose numbers can be written does not fail. -/
theorem failure?_of_leaves (ht : t.Leaves IsOrdinary) : t.failure? = none := by
  rw [Option.eq_none_iff_forall_ne_some]
  intro failure h
  rcases failure?_eq_some_iff.mp h with ⟨v, rfl, -⟩ | ⟨s, n, rest, rfl, -, hn, -⟩
  · exact ht
  · have hwritten : n.natAbs < Numeral.limit := leaves_list.mp ht (.number n) (by simp)
    exact absurd (Numeral.length_toDigits_le_maxDigits_iff.mpr hwritten) (Nat.not_le.mpr hn)

/-- **Evaluation returns and stays in its domain.** -/
theorem stays_evaluate (hp : Value.IsDomain p) (ht : t.Leaves IsOrdinary) :
    t.evaluate.Stays p p :=
  stays_of_failure? hp fun _ hu => failure?_of_leaves (leaves_of_mem_reached ht hu)

/-! ## Where operations are applied -/

/-- What the operation makes of two operands. If it reports something, the first of them stays. -/
def applyOperand (op : Operation) (a v : Value) : Action (Option Value) :=
  match op.apply a v with
  | .ok r => pure (some r)
  | .error d => do
      Action.complain d
      pure (some a)

/-- The operation by itself, which fails where it is not defined. -/
def checkedOperand (op : Operation) (failure : Failure) (a v : Value) : Action (Option Value) :=
  if op.IsDefined a v then applyOperand op a v else Action.fail failure

/-- Takes one more operand, with guards before the operation by itself: an operand that is not accepted is
left out, the first one that is accepted stands for itself, and zero divides nothing. -/
def guardedOperand (op : Operation) (raw : Value → Value → Action (Option Value))
    (soFar : Option Value) (v : Value) : Action (Option Value) :=
  if op.accepts v then
    match soFar with
    | none => pure (some v)
    | some a =>
        if op = .div && v.isZero then do
          Action.complain .divisionByZero
          pure (some a)
        else raw a v
  else do
    Action.complain (.invalidOperand op.noun)
    pure soFar

/-- Where the operation is defined, `raw` is the operation. Elsewhere it may do anything, and in particular
fail. -/
def AgreesWhereDefined (op : Operation) (raw : Value → Value → Action (Option Value)) : Prop :=
  ∀ a v, op.IsDefined a v → raw a v = applyOperand op a v

variable {op : Operation} {raw : Value → Value → Action (Option Value)} {soFar : Option Value}

theorem agreesWhereDefined_checked (op : Operation) (failure : Failure) :
    AgreesWhereDefined op (checkedOperand op failure) :=
  fun _ _ h => if_pos h

/-- **The guards keep the operation to operands for which it is defined**, if what has been combined so far
is accepted. -/
theorem guardedOperand_eq (hraw : AgreesWhereDefined op raw)
    (hs : ∀ a, soFar = some a → op.accepts a = true) (v : Value) :
    guardedOperand op raw soFar v = combineOperand op soFar v := by
  unfold guardedOperand combineOperand Operation.combine
  by_cases haccepts : op.accepts v = true
  · rw [if_pos haccepts, if_pos haccepts]
    cases soFar with
    | none => rfl
    | some a =>
        by_cases hzero : op = .div ∧ v.isZero = true
        · -- the guard reports what the operation would report in its place
          obtain ⟨rfl, hzero⟩ := hzero
          simp [hzero, Operation.apply_div_of_isZero a hzero]
        · -- no guard is left, and the operation by itself is applied
          have hdefined : op.IsDefined a v := by
            apply Operation.isDefined_of_accepts (hs a rfl) haccepts
            intro hop
            simpa [hop] using hzero
          simp only [Bool.and_eq_true, decide_eq_true_eq, if_neg hzero]
          exact hraw a v hdefined
  · rw [if_neg haccepts, if_neg haccepts]

/-- Without the guard a division by zero would fail. -/
example : (checkedOperand .div .tooManyDigits (.int 7) (.int 0)).run Env.empty
    = ⟨.error .tooManyDigits, Env.empty, []⟩ :=
  rfl

/-- **A fold applies its operation only where this is defined.** -/
theorem foldOperands_guarded (hraw : AgreesWhereDefined op raw)
    (hs : ∀ a, soFar = some a → op.accepts a = true) (ts : List Tree) :
    foldOperands (guardedOperand op raw) soFar ts = foldOperands (combineOperand op) soFar ts := by
  induction ts generalizing soFar with
  | nil => rfl
  | cons t ts ih =>
      rw [foldOperands, foldOperands]
      congr 1
      funext v
      rw [guardedOperand_eq hraw hs, combineOperand]
      -- what has been combined is accepted again, so that the rest of the fold can go on from it
      cases hcombine : op.combine soFar v.unwrap with
      | ok r =>
          have hr : ∀ a, some r = some a → op.accepts a = true := by
            rintro _ ⟨rfl⟩
            exact Operation.accepts_combine hcombine
          simp only [pure_bind, ih hr]
      | error d => simp only [bind_assoc, pure_bind, ih hs]

end Tree
end FormLang
