import FormLang.Proofs.Tree.Independence

/-!
# `FormLang.Proofs.Tree.Effects` — what a tree does is written in it

There is no control flow: a tree evaluates the same nodes whatever the variables hold and whatever
becomes of its operands, and each of them once. So it can be read off the tree which names are bound
afterwards and how many values are logged. An operand that a sum leaves out has had its effects all the
same. And no value enters the evaluation but through the names that it looks up: two sessions that agree
on these cannot be told apart by it.

## Contents
- `Tree.logCount`: how many operands a node logs.
- `Action.Performs`: an action that binds exactly these names and logs so many values; `Performs.bind` and
  its companions.
- `performs_evaluate`: the evaluation of a tree performs what its nodes say.
- `evaluate_effects`: the variables afterwards and the number of values logged.
- `Env.only`: the variables with some names.
- `evaluate_reads`: variables that agree on the names looked up are all the same to a tree.
-/

namespace FormLang

/-- Whether the event is a value that the program logs. -/
def Event.isLog : Event → Bool
  | .log _ => true
  | .error _ => false

namespace Tree

/-- How many operands a node logs: `print` logs all of them, and nothing else does. -/
def logCount : Tree → Nat
  | .list (.name s :: args) => if Command.ofName? s = some .print then args.length else 0
  | _ => 0

/-- How many operands the nodes log together. -/
def logCountAll : List Tree → Nat
  | [] => 0
  | u :: us => u.logCount + logCountAll us

theorem logCountAll_append (us more : List Tree) :
    logCountAll (us ++ more) = logCountAll us + logCountAll more := by
  induction us with
  | nil => rw [List.nil_append, logCountAll, Nat.zero_add]
  | cons u us ih => rw [List.cons_append, logCountAll, logCountAll, ih, Nat.add_assoc]

end Tree

/-! ## Actions -/

namespace Action

variable {α β : Type} {names names' : List String} {k k' : Nat} {x : Action α}

/-- From whatever variables it starts, the action ends with a result. The variables that are bound then
are those that were and those with the names, and `k` of the events are values that it logs. -/
def Performs (names : List String) (k : Nat) (x : Action α) : Prop :=
  ∀ e, ∃ a e' events, x.run e = ⟨.ok a, e', events⟩ ∧
    (∀ y, (e'.get? y).isSome ↔ (e.get? y).isSome ∨ y ∈ names) ∧
    events.countP Event.isLog = k

theorem performs_pure (a : α) : (pure a : Action α).Performs [] 0 :=
  fun e => ⟨a, e, [], rfl, by simp, rfl⟩

theorem performs_complain (d : Diagnostic) : (complain d).Performs [] 0 :=
  fun e => ⟨(), e, [.error d], rfl, by simp, rfl⟩

theorem performs_log (v : Value) : (log v).Performs [] 1 :=
  fun e => ⟨(), e, [.log v], rfl, by simp, rfl⟩

theorem performs_lookup (y : String) : (lookup y).Performs [] 0 :=
  fun e => ⟨e.get? y, e, [], rfl, by simp, rfl⟩

theorem performs_assign (y : String) (v : Value) : (assign y v).Performs [y] 0 := by
  intro e
  refine ⟨(), e.bind y v, [], rfl, ?_, rfl⟩
  intro z
  by_cases hz : z = y
  · simp [hz]
  · simp [hz, Env.get?_bind_of_ne e v hz]

/-- **Two actions one after the other perform** what the first does and what the second does, which is the
same for every result of the first. -/
theorem Performs.bind {f : α → Action β} (hx : x.Performs names k)
    (hf : ∀ a, (f a).Performs names' k') : (x >>= f).Performs (names ++ names') (k + k') := by
  intro e
  obtain ⟨a, e', events, hrun, hbound, hlogs⟩ := hx e
  obtain ⟨b, e'', events', hrun', hbound', hlogs'⟩ := hf a e'
  refine ⟨b, e'', events ++ events', ?_, ?_, ?_⟩
  · rw [bind_run_ok hrun, hrun']
  · intro y
    rw [hbound', hbound, List.mem_append, or_assoc]
  · rw [List.countP_append, hlogs, hlogs']

theorem Performs.map (f : α → β) (hx : x.Performs names k) : (f <$> x).Performs names k := by
  intro e
  obtain ⟨a, e', events, hrun, hbound, hlogs⟩ := hx e
  refine ⟨f a, e', events, ?_, hbound, hlogs⟩
  rw [map_run, hrun]
  rfl

/-- It does not matter in which order the names are listed, or how often. -/
theorem Performs.congr (hx : x.Performs names k) (hnames : ∀ y, y ∈ names ↔ y ∈ names')
    (hk : k = k') : x.Performs names' k' := by
  intro e
  obtain ⟨a, e', events, hrun, hbound, hlogs⟩ := hx e
  exact ⟨a, e', events, hrun, fun y => by rw [hbound, hnames], hlogs.trans hk⟩

end Action

/-! ## Trees -/

namespace Tree

open FormLang.Action

variable {t : Tree} {ts : List Tree}

/-! ### Nodes -/

section Nodes

variable {s : String} {args : List Tree}

theorem setName?_of_ne_set (h : Command.ofName? s ≠ some .set) :
    (list (.name s :: args)).setName? = none := by
  unfold setName?
  split
  · next hnode =>
      simp only [list.injEq, List.cons.injEq, name.injEq] at hnode
      rw [← hnode.1, if_neg h]
  · rfl

theorem setName?_of_not_name (ht : ∀ s, t ≠ .name s) : (list (t :: ts)).setName? = none := by
  cases t with
  | name s => exact absurd rfl (ht s)
  | _ => rfl

theorem logCount_of_ne_print (h : Command.ofName? s ≠ some .print) :
    (list (.name s :: args)).logCount = 0 :=
  if_neg h

theorem logCount_of_not_name (ht : ∀ s, t ≠ .name s) : (list (t :: ts)).logCount = 0 := by
  cases t with
  | name s => exact absurd rfl (ht s)
  | _ => rfl

end Nodes

/-- The action performs what the nodes say. -/
abbrev PerformsNodes {α : Type} (us : List Tree) (x : Action α) : Prop :=
  x.Performs (us.filterMap setName?) (logCountAll us)

/-- A node that neither binds nor logs adds nothing to those inside it. -/
theorem performsNodes_cons {α : Type} {us : List Tree} {x : Action α} (hset : t.setName? = none)
    (hlog : t.logCount = 0) (hx : PerformsNodes us x) : PerformsNodes (t :: us) x := by
  refine hx.congr ?_ ?_
  · simp [hset]
  · simp [logCountAll, hlog]

/-- A command that is neither `set` nor `print` performs what its arguments do. -/
theorem performsNodes_command {α : Type} {s : String} {args us : List Tree} {x : Action α}
    (hset : Command.ofName? s ≠ some .set) (hprint : Command.ofName? s ≠ some .print)
    (hx : PerformsNodes us x) : PerformsNodes (list (.name s :: args) :: us) x :=
  performsNodes_cons (setName?_of_ne_set hset) (logCount_of_ne_print hprint) hx

/-! ### The functions of the evaluator -/

theorem performs_combineOperand (op : Operation) (soFar : Option Value) (v : Value) :
    (combineOperand op soFar v).Performs [] 0 := by
  unfold combineOperand
  split
  · exact performs_pure _
  · exact (performs_complain _).bind fun _ => performs_pure _

theorem performs_evaluateAll (h : ∀ t ∈ ts, PerformsNodes t.reached t.evaluate) :
    PerformsNodes (reachedAll ts) (evaluateAll ts) := by
  induction ts with
  | nil => exact performs_pure []
  | cons t ts ih =>
      unfold PerformsNodes
      rw [evaluateAll, reachedAll, List.filterMap_append, logCountAll_append]
      refine (h t List.mem_cons_self).bind fun v => ?_
      exact (ih fun u hu => h u (List.mem_cons_of_mem t hu)).map _

/-- What is done with each operand is done as many times as there are arguments, besides what the
arguments do. -/
theorem performs_mapOperands {f : Value → Action Value} {k : Nat} (hf : ∀ v, (f v).Performs [] k)
    (h : ∀ t ∈ ts, PerformsNodes t.reached t.evaluate) :
    (mapOperands f ts).Performs ((reachedAll ts).filterMap setName?)
      (logCountAll (reachedAll ts) + k * ts.length) := by
  induction ts with
  | nil => exact performs_pure []
  | cons t ts ih =>
      rw [mapOperands, reachedAll, List.filterMap_append, logCountAll_append]
      have hrest := ih fun u hu => h u (List.mem_cons_of_mem t hu)
      have hsteps := (h t List.mem_cons_self).bind fun v => (hf v.unwrap).bind fun r =>
        hrest.map (r :: ·)
      refine hsteps.congr (fun _ => Iff.rfl) ?_
      rw [List.length_cons, Nat.mul_succ]
      omega

theorem performs_foldOperands {f : Option Value → Value → Action (Option Value)}
    (hf : ∀ s v, (f s v).Performs [] 0) (h : ∀ t ∈ ts, PerformsNodes t.reached t.evaluate)
    (s : Option Value) : PerformsNodes (reachedAll ts) (foldOperands f s ts) := by
  induction ts generalizing s with
  | nil => exact performs_pure s
  | cons t ts ih =>
      unfold PerformsNodes
      rw [foldOperands, reachedAll, List.filterMap_append, logCountAll_append]
      have hrest := ih fun u hu => h u (List.mem_cons_of_mem t hu)
      have hsteps := (h t List.mem_cons_self).bind fun v => (hf s v.unwrap).bind fun s' => hrest s'
      refine hsteps.congr (fun _ => Iff.rfl) ?_
      rw [Nat.zero_add]

theorem performs_readVariable (hts : ∀ t ∈ ts, t.Leaves IsOrdinary) :
    (readVariable ts).Performs [] 0 := by
  cases ts with
  | nil => exact (performs_complain .tooFewParameters).bind fun _ => performs_pure []
  | cons slot rest =>
      obtain ⟨name, hname⟩ := exists_readName? (hts slot List.mem_cons_self)
      rw [readVariable, hname]
      show Performs [] 0 (pure name >>= _)
      rw [pure_bind]
      cases name with
      | none => exact performs_pure []
      | some y =>
          show Performs ([] ++ []) (0 + 0) (lookup y >>= _)
          refine (performs_lookup y).bind fun bound => ?_
          cases bound with
          | none => exact performs_pure []
          | some v => exact performs_pure v.elements

theorem performs_bindVariable {s : String} (hs : Command.ofName? s = some .set)
    (h : ∀ t ∈ ts, PerformsNodes t.reached t.evaluate) :
    PerformsNodes (list (.name s :: ts) :: reachedBound ts) (bindVariable ts) := by
  have hlog : (list (.name s :: ts)).logCount = 0 := logCount_of_ne_print (by simp [hs])
  match ts with
  | [] =>
      refine performsNodes_cons rfl hlog ?_
      exact (performs_complain .tooFewParameters).bind fun _ => performs_pure []
  | [_] =>
      refine performsNodes_cons rfl hlog ?_
      exact (performs_complain .tooFewParameters).bind fun _ => performs_pure []
  | slot :: t :: rest =>
      rw [bindVariable, reachedBound]
      cases hslot : slot.boundName? with
      | none =>
          -- the arguments are not evaluated, and no node of theirs is come to
          refine performsNodes_cons (by simp [setName?, hslot]) hlog ?_
          exact (performs_complain .invalidName).bind fun _ => performs_pure []
      | some x =>
          have hrest := performs_mapOperands (fun v => performs_pure v) fun u hu =>
            h u (List.mem_cons_of_mem slot (List.mem_cons_of_mem t hu))
          have hsteps := (h t (List.mem_cons_of_mem slot List.mem_cons_self)).bind fun v =>
            hrest.bind fun vs => (performs_assign x (packed (v.unwrap :: vs))).bind fun _ =>
              performs_pure (v.unwrap :: vs)
          refine hsteps.congr ?_ ?_
          · -- the name is bound after the arguments, but its node stands before theirs
            intro y
            rw [List.filterMap_cons_some (setName?_set hs hslot)]
            simp only [List.filterMap_append, List.mem_append, List.mem_cons, List.not_mem_nil, or_false]
            rw [← or_assoc, or_comm]
          · have hnode : logCountAll (list (.name s :: slot :: t :: rest) :: (t.reached ++ reachedAll rest))
                = logCountAll (t.reached ++ reachedAll rest) := by
              simp [logCountAll, hlog]
            rw [hnode, logCountAll_append]
            omega

/-- A list performs what it is itself the node of, and what its arguments or elements do. -/
theorem performs_evaluateForm (hts : ∀ t ∈ ts, t.Leaves IsOrdinary)
    (h : ∀ t ∈ ts, PerformsNodes t.reached t.evaluate) :
    PerformsNodes (list ts).reached (evaluateForm ts) := by
  rw [reached]
  cases ts using formCases with
  | nil => exact performs_pure []
  | print s args hs =>
      rw [evaluateForm_print hs, reachedForm_print hs]
      have hlog : ∀ v, (printOperand v).Performs [] 1 := fun v =>
        (performs_log v).bind fun _ => performs_pure v
      have hargs := performs_mapOperands hlog fun u hu => h u (List.mem_cons_of_mem _ hu)
      refine hargs.congr ?_ ?_
      · simp [setName?_of_ne_set, hs]
      · simp [logCountAll, logCount, hs]
        omega
  | arithmetic op s args hs =>
      rw [evaluateForm_arithmetic hs, reachedForm_arithmetic hs]
      refine performsNodes_command (by simp [hs]) (by simp [hs]) ?_
      refine (performs_foldOperands (performs_combineOperand op) ?_ none).map _
      exact fun u hu => h u (List.mem_cons_of_mem _ hu)
  | set s args hs =>
      rw [evaluateForm_set hs, reachedForm_set hs]
      exact performs_bindVariable hs fun u hu => h u (List.mem_cons_of_mem _ hu)
  | get s args hs =>
      rw [evaluateForm_get hs, reachedForm_get hs]
      refine performsNodes_command (by simp [hs]) (by simp [hs]) ?_
      exact performs_readVariable fun u hu => hts u (List.mem_cons_of_mem _ hu)
  | unknown s args hs =>
      rw [evaluateForm_unknown hs, reachedForm_unknown hs]
      refine performsNodes_command (by simp [hs]) (by simp [hs]) ?_
      exact (performs_complain (.unknownCommand s)).bind fun _ => performs_pure _
  | data t ts hname =>
      rw [evaluateForm_of_not_name hname, reachedForm_of_not_name hname]
      exact performsNodes_cons (setName?_of_not_name hname) (logCount_of_not_name hname)
        (performs_evaluateAll h)

/-- **The evaluation of a tree performs what the nodes that it comes to say**, and nothing else. -/
theorem performs_evaluate (ht : t.Leaves IsOrdinary) : PerformsNodes t.reached t.evaluate := by
  induction t with
  | number n => exact performs_pure _
  | text s => exact performs_pure _
  | name s => exact performs_pure _
  | error message => exact (performs_complain (.malformed message)).bind fun _ => performs_pure _
  | foreign v => exact absurd ht id
  | list ts ih =>
      rw [leaves_list] at ht
      rw [evaluate]
      exact (performs_evaluateForm ht fun t hmem => ih t hmem (ht t hmem)).map _

/-- **What a tree does is written in it.** Whatever the variables hold, the evaluation of a tree without
foreign parts, whose numbers can be written, ends with a value. Those names are bound then that were
bound before and those to which a node that the evaluation comes to gives a value; all others keep what
they had. As many values are logged as the `print` nodes among them have arguments. -/
theorem evaluate_effects (ht : t.Leaves IsOrdinary) (e : Env) :
    ∃ v e' events, t.evaluate.run e = ⟨.ok v, e', events⟩ ∧
      (∀ x, (e'.get? x).isSome ↔ (e.get? x).isSome ∨ x ∈ t.boundNames) ∧
      (∀ x, x ∉ t.boundNames → e'.get? x = e.get? x) ∧
      events.countP Event.isLog = logCountAll t.reached := by
  obtain ⟨v, e', events, hrun, hbound, hlogs⟩ := performs_evaluate ht e
  refine ⟨v, e', events, hrun, hbound, ?_, hlogs⟩
  intro x hx
  -- a name that was bound before may still have been bound anew, which `hbound` does not tell
  obtain ⟨_, bs, _, hbs, hconfined⟩ := evaluate_agreeOn ht e
  have hsame := hconfined e fun _ _ => rfl
  rw [hrun] at hsame
  obtain rfl : e' = e.bindAll bs := congrArg Outcome.env hsame
  exact Env.get?_bindAll_of_not_mem fun b hb hbx => hx (hbx ▸ hbs b hb)

/-- A product with effects in operands that it leaves out, behind names that do not count. -/
def leavesOut : Tree :=
  .list [.name "mult", .list [.name "set", .text "x", .list [.name "print", .text "a", .number 2]],
    .list [.name "div", .number 1, .list [.name "print", .number 0]],
    .list [.name "set", .list [.name "set", .name "y", .number 1], .list [.name "print", .number 3]],
    .list [.name "get", .list [.name "set", .name "z", .number 1]],
    .list [.name "halt", .list [.name "print", .number 4]]]

/-- Three values are logged and one name is bound. -/
theorem evaluate_effects_leavesOut :
    leavesOut.Leaves IsOrdinary ∧ leavesOut.boundNames = ["x"] ∧
    logCountAll leavesOut.reached = 3 ∧
    ∃ v e' events, leavesOut.evaluate.run Env.empty = ⟨.ok v, e', events⟩ ∧
      (∀ x, (e'.get? x).isSome ↔ (Env.empty.get? x).isSome ∨ x ∈ leavesOut.boundNames) ∧
      (∀ x, x ∉ leavesOut.boundNames → e'.get? x = Env.empty.get? x) ∧
      events.countP Event.isLog = logCountAll leavesOut.reached := by
  have hordinary : leavesOut.Leaves IsOrdinary := by decide +kernel
  exact ⟨hordinary, by decide +kernel, by decide +kernel, evaluate_effects hordinary _⟩

end Tree

/-! ## Variables that are looked up -/

namespace Env

variable {e e' : Env} {names : List String} {x : String}

instance (names : List String) (e e' : Env) : Decidable (e.AgreeOn names e') :=
  inferInstanceAs (Decidable (∀ x ∈ names, e.get? x = e'.get? x))

/-- The variables with one of the names. -/
def only (names : List String) (e : Env) : Env := ⟨e.bindings.filter (·.1 ∈ names)⟩

theorem get?_only (names : List String) (e : Env) (x : String) :
    (e.only names).get? x = if x ∈ names then e.get? x else none := by
  obtain ⟨bs⟩ := e
  unfold only get?
  induction bs with
  | nil => simp [find?]
  | cons b bs ih =>
      by_cases hb : b.1 ∈ names
      · by_cases hx : x = b.1
        · simp [hb, hx, find?]
        · simpa [hb, hx, find?] using ih
      · -- the binding is left out, and `x` is another name if it is one of the names
        have hx : x ∈ names → x ≠ b.1 := fun h hxb => hb (hxb ▸ h)
        simp only [List.filter_cons, hb, decide_false, find?]
        rw [if_neg (by simp), ih]
        by_cases hmem : x ∈ names
        · rw [if_pos hmem, if_pos hmem, if_neg (hx hmem)]
        · rw [if_neg hmem, if_neg hmem]

/-- **A name that is bound anew has the value it is bound to**, whatever it had before. -/
theorem get?_bindAll_of_mem {bs : List (String × Value)} (h : ∃ b ∈ bs, b.1 = x) :
    (e.bindAll bs).get? x = (e'.bindAll bs).get? x := by
  induction bs generalizing e e' with
  | nil => simp at h
  | cons b bs ih =>
      rw [bindAll_cons, bindAll_cons]
      by_cases hx : b.1 = x
      · apply get?_bindAll_congr
        rw [← hx, get?_bind_self, get?_bind_self]
      · apply ih
        simpa [hx] using h

end Env

namespace Tree

variable {t : Tree} {x : String}

theorem isSome_of_mem_boundNames (ht : t.Leaves IsOrdinary) {e e' : Env} {r : Except Failure Value}
    {events : List Event} (hrun : t.evaluate.run e = ⟨r, e', events⟩) (hx : x ∈ t.boundNames) :
    (e'.get? x).isSome := by
  obtain ⟨_, e'', _, hperforms, hbound, -⟩ := performs_evaluate ht e
  rw [hrun] at hperforms
  obtain rfl : e' = e'' := congrArg Outcome.env hperforms
  exact (hbound x).mpr (.inr hx)

/-- **A tree reads the names that it looks up, and no others.** Evaluated from variables that agree on
the names that its evaluation looks up, a tree without foreign parts, whose numbers can be written, has
the same value and reports the same events. The names that it binds have the same values then, and every
other name has the value that it had on either side. -/
theorem evaluate_reads (ht : t.Leaves IsOrdinary) {e e' : Env} (h : e.AgreeOn t.readNames e') :
    ∃ v events e₁ e₁', t.evaluate.run e = ⟨.ok v, e₁, events⟩ ∧
      t.evaluate.run e' = ⟨.ok v, e₁', events⟩ ∧
      (∀ x ∈ t.boundNames, ∃ w, e₁.get? x = some w ∧ e₁'.get? x = some w) ∧
      ∀ x, x ∉ t.boundNames → e₁.get? x = e.get? x ∧ e₁'.get? x = e'.get? x := by
  obtain ⟨v, bs, events, hbs, hrun⟩ := evaluate_agreeOn ht e
  refine ⟨v, events, e.bindAll bs, e'.bindAll bs, hrun e fun _ _ => rfl, hrun e' h, ?_, ?_⟩
  · intro x hx
    have hsame : (e.bindAll bs).get? x = (e'.bindAll bs).get? x := by
      by_cases hread : x ∈ t.readNames
      · exact Env.get?_bindAll_congr bs (h x hread)
      · -- among the variables that the tree looks up the name is missing, and still it is bound in the end
        have honly : e.AgreeOn t.readNames (e.only t.readNames) :=
          fun y hy => by rw [Env.get?_only, if_pos hy]
        have hbound := isSome_of_mem_boundNames ht (hrun _ honly) hx
        apply Env.get?_bindAll_of_mem
        apply Classical.byContradiction
        intro hnew
        rw [Env.get?_bindAll_of_not_mem fun b hb hbx => hnew ⟨b, hb, hbx⟩,
          Env.get?_only, if_neg hread] at hbound
        cases hbound
    obtain ⟨w, hw⟩ := Option.isSome_iff_exists.mp
      (isSome_of_mem_boundNames ht (hrun e fun _ _ => rfl) hx)
    exact ⟨w, hw, hsame ▸ hw⟩
  · intro x hx
    have hnew : ∀ b ∈ bs, b.1 ≠ x := fun b hb hbx => hx (hbx ▸ hbs b hb)
    exact ⟨Env.get?_bindAll_of_not_mem hnew, Env.get?_bindAll_of_not_mem hnew⟩

/-- A list whose first element binds what the last one looks up, with names and texts that are no reading
of variables. -/
def readsOnce : Tree :=
  .list [.list [.name "set", .name "x", .list [.name "get", .text "y"]],
    .list [.name "print", .name "x", .list [.name "add", .text "", .text "z"]],
    .list [.name "halt", .list [.name "get", .name "z"]],
    .list [.name "get", .name "x"]]

/-- Variables with a value of `z` that may be anything. -/
def anyZ (v : Value) : Env := (Env.empty.bind "y" (.int 1)).bind "z" v

/-- The names `x` and `y` are looked up, and `z` is not. -/
theorem evaluate_reads_readsOnce :
    readsOnce.Leaves IsOrdinary ∧ readsOnce.readNames = ["y", "x"] ∧
    (anyZ (.int 2)).AgreeOn readsOnce.readNames (anyZ (.text "a")) ∧
    ∃ v events e₁ e₁', readsOnce.evaluate.run (anyZ (.int 2)) = ⟨.ok v, e₁, events⟩ ∧
      readsOnce.evaluate.run (anyZ (.text "a")) = ⟨.ok v, e₁', events⟩ ∧
      (∀ x ∈ readsOnce.boundNames, ∃ w, e₁.get? x = some w ∧ e₁'.get? x = some w) ∧
      ∀ x, x ∉ readsOnce.boundNames →
        e₁.get? x = (anyZ (.int 2)).get? x ∧ e₁'.get? x = (anyZ (.text "a")).get? x := by
  have hordinary : readsOnce.Leaves IsOrdinary := by decide +kernel
  have hagree : (anyZ (.int 2)).AgreeOn readsOnce.readNames (anyZ (.text "a")) := by decide +kernel
  exact ⟨hordinary, by decide +kernel, hagree, evaluate_reads hordinary hagree⟩

end Tree
end FormLang
