import FormLang.Proofs.Tree.Effects
import FormLang.Proofs.Tree.Operands

/-!
# `FormLang.Proofs.Tree.Stopping` — where an evaluation stops

Programs do not fail, but what a host builds by hand may: an evaluation cannot go on at something that is
no tree, or where a number of too many digits stands for the name of a variable. Both can be seen in the
tree, and so can the node at which the evaluation stops. It is the first such node that the evaluation
comes to. On the way there some trees have been completed: arguments and elements to the left, and the
commands around as far as they had come. What these have done stays done, and nothing else happens.

## Contents
- `run_of_failure?`: a node that fails does nothing else.
- `Tree.ComesTo`: a node with what is completed on the way to it; `exists_comesTo`.
- `ComesTo.run`: the way to a node that fails.
- `evaluate_stops`: whether an evaluation fails, at which node, and what is done by then.
-/

namespace FormLang

/-! ## Actions -/

namespace Action

variable {α β : Type} {x : Action α} {a : α} {failure : Failure} {e e₁ e' : Env}
  {before after : List Event}

/-- An action that fails after another one keeps what both have done. -/
theorem bind_run_ok_error {f : α → Action β} (hx : x.run e = ⟨.ok a, e₁, before⟩)
    (hf : (f a).run e₁ = ⟨.error failure, e', after⟩) :
    (x >>= f).run e = ⟨.error failure, e', before ++ after⟩ := by
  rw [bind_run_ok hx, hf]

theorem map_run_error {f : α → β} (hx : x.run e = ⟨.error failure, e', after⟩) :
    (f <$> x).run e = ⟨.error failure, e', after⟩ := by
  rw [map_run, hx]
  rfl

end Action

namespace Tree

open FormLang.Action

variable {t u : Tree} {ts us done : List Tree} {failure : Failure} {e e' : Env} {events : List Event}

/-! ## Nodes that fail -/

/-- **A node that fails has done nothing before.** -/
theorem run_of_failure? (h : t.failure? = some failure) (e : Env) :
    t.evaluate.run e = ⟨.error failure, e, []⟩ := by
  rcases failure?_eq_some_iff.mp h with ⟨v, rfl, rfl⟩ | ⟨s, n, rest, rfl, hs, hn, rfl⟩
  · rw [evaluate, fail_run]
  · have hslot : (ofExcept (number n).readName?).run e = ⟨.error .tooManyDigits, e, []⟩ := by
      rw [readName?, Numeral.digitsOrFail_eq, if_pos hn]
      rfl
    rw [evaluate, evaluateForm_get hs, readVariable]
    exact map_run_error (bind_run_error hslot)

/-! ## The way to a node -/

/-- What has been completed of a list when so many of the elements that it evaluates have been: a command
has gone through these arguments as if there were no others, while `set` has bound nothing yet. -/
def completed : List Tree → List Tree → List Tree
  | .name s :: _, earlier =>
      if Command.ofName? s = some .set then earlier else [.list (.name s :: earlier)]
  | _, earlier => earlier

section Completed

variable {s : String} {args earlier : List Tree}

theorem completed_set (h : Command.ofName? s = some .set) :
    completed (.name s :: args) earlier = earlier :=
  if_pos h

theorem completed_of_ne_set (h : Command.ofName? s ≠ some .set) :
    completed (.name s :: args) earlier = [list (.name s :: earlier)] :=
  if_neg h

theorem completed_of_not_name (ht : ∀ s, t ≠ .name s) : completed (t :: ts) earlier = earlier := by
  cases t with
  | name s => exact absurd rfl (ht s)
  | _ => rfl

end Completed

/-- On its way to a node inside the tree the evaluation completes some trees, one after the other. -/
inductive ComesTo : Tree → List Tree → Tree → Prop where
  | here (t : Tree) : ComesTo t [] t
  | inside {ts earlier later done : List Tree} {t u : Tree} (split : visited ts = earlier ++ t :: later)
      (path : ComesTo t done u) : ComesTo (.list ts) (completed ts earlier ++ done) u

/-- A node that several trees lead to belongs to one of them, and what stands before it to those before
and to this one. -/
theorem exists_split_of_reachedAll {before after : List Tree} (h : reachedAll ts = before ++ u :: after) :
    ∃ earlier t later inner outer, ts = earlier ++ t :: later ∧ t.reached = inner ++ u :: outer ∧
      before = reachedAll earlier ++ inner := by
  induction ts generalizing before with
  | nil => simp [reachedAll] at h
  | cons t ts ih =>
      rw [reachedAll, List.append_eq_append_iff] at h
      rcases h with ⟨more, rfl, hrest⟩ | ⟨_ | ⟨w, more⟩, hfirst, hrest⟩
      · obtain ⟨earlier, t', later, inner, outer, rfl, ht', rfl⟩ := ih hrest
        exact ⟨t :: earlier, t', later, inner, outer, rfl, ht', by rw [reachedAll, List.append_assoc]⟩
      · -- the node is the first one behind those of `t`
        have hnext : reachedAll ts = [] ++ u :: after := hrest.symm
        obtain ⟨earlier, t', later, inner, outer, rfl, ht', hnothing⟩ := ih hnext
        refine ⟨t :: earlier, t', later, inner, outer, rfl, ht', ?_⟩
        rw [reachedAll, List.append_assoc, ← hnothing, hfirst]
        simp
      · obtain ⟨rfl, -⟩ := List.cons.inj hrest
        exact ⟨[], t, ts, before, more, rfl, hfirst, rfl⟩

/-- The nodes of what has been completed of a list are those of the elements that have been, and besides a
command that goes through them, which neither fails nor binds itself. -/
theorem mem_reachedAll_completed {earlier later : List Tree} {w : Tree}
    (hsplit : visited ts = earlier ++ t :: later) (hw : w ∈ reachedAll (completed ts earlier)) :
    w ∈ reachedAll earlier ∨ w.failure? = none ∧ w.setName? = none := by
  have hcommand : ∀ s, Command.ofName? s ≠ some .set → Command.ofName? s ≠ some .get →
      reachedForm (.name s :: earlier) = reachedAll earlier →
      w ∈ reachedAll [list (.name s :: earlier)] →
      w ∈ reachedAll earlier ∨ w.failure? = none ∧ w.setName? = none := by
    intro s hset hget hform hw
    rw [reachedAll, reached, hform, reachedAll, List.append_nil, List.mem_cons] at hw
    rcases hw with rfl | hw
    · exact .inr ⟨failure?_of_ne_get hget, setName?_of_ne_set hset⟩
    · exact .inl hw
  cases ts using formCases with
  | nil => simp [visited] at hsplit
  | print s args hs =>
      rw [completed_of_ne_set (by simp [hs])] at hw
      exact hcommand s (by simp [hs]) (by simp [hs]) (reachedForm_print hs) hw
  | arithmetic op s args hs =>
      rw [completed_of_ne_set (by simp [hs])] at hw
      exact hcommand s (by simp [hs]) (by simp [hs]) (reachedForm_arithmetic hs) hw
  | set s args hs =>
      rw [completed_set hs] at hw
      exact .inl hw
  | get s args hs => simp [visited, hs] at hsplit
  | unknown s args hs => simp [visited, hs] at hsplit
  | data t ts hname =>
      rw [completed_of_not_name hname] at hw
      exact .inl hw

/-- **There is a way to every node that an evaluation comes to.** The nodes of what is completed on it
stand before the node, but for commands around it that neither fail nor bind. -/
theorem exists_comesTo {before after : List Tree} (h : t.reached = before ++ u :: after) :
    ∃ done, t.ComesTo done u ∧
      ∀ w ∈ reachedAll done, w ∈ before ∨ w.failure? = none ∧ w.setName? = none := by
  induction t generalizing before after with
  | list ts ih =>
      rw [reached, reachedForm_eq] at h
      cases before with
      | nil =>
          obtain ⟨rfl, -⟩ := List.cons.inj h
          exact ⟨[], .here _, fun _ hw => absurd hw List.not_mem_nil⟩
      | cons _ before =>
          obtain ⟨rfl, hinside⟩ := List.cons.inj h
          obtain ⟨earlier, t, later, inner, outer, hsplit, ht, rfl⟩ :=
            exists_split_of_reachedAll hinside
          have hmem : t ∈ visited ts := by simp [hsplit]
          obtain ⟨done, hpath, hdone⟩ := ih t (mem_of_mem_visited hmem) ht
          refine ⟨completed ts earlier ++ done, .inside hsplit hpath, ?_⟩
          intro w hw
          rw [reachedAll_append, List.mem_append] at hw
          rcases hw with hw | hw
          · refine (mem_reachedAll_completed hsplit hw).imp_left fun hw => ?_
            exact List.mem_cons_of_mem _ (List.mem_append_left inner hw)
          · refine (hdone w hw).imp_left fun hw => ?_
            exact List.mem_cons_of_mem _ (List.mem_append_right _ hw)
  | _ =>
      rw [reached] at h
      cases before with
      | nil =>
          obtain ⟨rfl, -⟩ := List.cons.inj h
          exact ⟨[], .here _, fun _ hw => absurd hw List.not_mem_nil⟩
      | cons _ before => simp at h

/-! ## What is done by then -/

theorem evaluateAll_singleton (t : Tree) : evaluateAll [t] = (fun v => [v]) <$> t.evaluate := by
  simp [evaluateAll]

/-- A list that has been evaluated has yielded values, with the same outcome. -/
theorem exists_of_evaluateAll_list {vs : List Value}
    (h : (evaluateAll [list ts]).run e = ⟨.ok vs, e', events⟩) :
    ∃ ws, (evaluateForm ts).run e = ⟨.ok ws, e', events⟩ := by
  rw [evaluateAll_singleton, evaluate] at h
  obtain ⟨v, hv, -⟩ := exists_of_map_run h
  obtain ⟨ws, hws, -⟩ := exists_of_map_run hv
  exact ⟨ws, hws⟩

/-- **A list fails at an element** if the elements before it have been completed and it fails then. -/
theorem evaluateForm_run_error {earlier later : List Tree} {vs : List Value} {e₁ : Env}
    {before after : List Event} (hsplit : visited ts = earlier ++ t :: later)
    (hearlier : (evaluateAll (completed ts earlier)).run e = ⟨.ok vs, e₁, before⟩)
    (ht : t.evaluate.run e₁ = ⟨.error failure, e', after⟩) :
    (evaluateForm ts).run e = ⟨.error failure, e', before ++ after⟩ := by
  have helements : (evaluateAll earlier).run e = ⟨.ok vs, e₁, before⟩ →
      (evaluateAll (earlier ++ t :: later)).run e = ⟨.error failure, e', before ++ after⟩ := by
    intro hearlier
    rw [evaluateAll_append]
    refine bind_run_ok_error hearlier (map_run_error ?_)
    rw [evaluateAll]
    exact bind_run_error ht
  cases ts using formCases with
  | nil => simp [visited] at hsplit
  | print s args hs =>
      rw [visited_print hs] at hsplit
      rw [completed_of_ne_set (by simp [hs])] at hearlier
      obtain ⟨ws, hearlier⟩ := exists_of_evaluateAll_list hearlier
      rw [evaluateForm_print hs] at hearlier ⊢
      rw [hsplit, mapOperands_append]
      refine bind_run_ok_error hearlier (map_run_error ?_)
      rw [mapOperands]
      exact bind_run_error ht
  | arithmetic op s args hs =>
      rw [visited_arithmetic hs] at hsplit
      rw [completed_of_ne_set (by simp [hs])] at hearlier
      obtain ⟨ws, hearlier⟩ := exists_of_evaluateAll_list hearlier
      rw [evaluateForm_arithmetic hs] at hearlier ⊢
      obtain ⟨soFar, hearlier, -⟩ := exists_of_map_run hearlier
      rw [hsplit, foldOperands_append]
      refine map_run_error (bind_run_ok_error hearlier ?_)
      rw [foldOperands]
      exact bind_run_error ht
  | set s args hs =>
      rw [completed_set hs] at hearlier
      rw [evaluateForm_set hs]
      cases args with
      | nil => simp [visited, hs] at hsplit
      | cons slot values =>
          rw [visited_set hs] at hsplit
          split at hsplit
          · next hslot =>
              obtain ⟨x, hx⟩ := Option.isSome_iff_exists.mp hslot
              rw [hsplit, bindVariable_eq hx (by simp)]
              exact bind_run_error (helements hearlier)
          · simp at hsplit
  | get s args hs => simp [visited, hs] at hsplit
  | unknown s args hs => simp [visited, hs] at hsplit
  | data t ts hname =>
      rw [visited_of_not_name hname] at hsplit
      rw [completed_of_not_name hname] at hearlier
      rw [evaluateForm_of_not_name hname, hsplit]
      exact helements hearlier

/-- **On the way to a node that fails** the evaluation does what it completes, and then stops. -/
theorem ComesTo.run {vs : List Value} (h : t.ComesTo done u) (hu : u.failure? = some failure)
    (hdone : (evaluateAll done).run e = ⟨.ok vs, e', events⟩) :
    t.evaluate.run e = ⟨.error failure, e', events⟩ := by
  induction h generalizing e vs events with
  | here t =>
      rw [evaluateAll, pure_run] at hdone
      obtain ⟨-, rfl, rfl⟩ := Outcome.mk.inj hdone
      exact run_of_failure? hu e
  | inside hsplit _ ih =>
      rw [evaluateAll_append] at hdone
      obtain ⟨ws, e₁, before, after, hearlier, hrest, rfl⟩ := exists_of_bind_run hdone
      obtain ⟨us, hrest, -⟩ := exists_of_map_run hrest
      rw [evaluate]
      exact map_run_error (evaluateForm_run_error hsplit hearlier (ih hu hrest))

/-- A name that no node binds keeps its value. -/
theorem get?_of_evaluateAll {x : String} {r : Except Failure (List Value)}
    (hrun : (evaluateAll ts).run e = ⟨r, e', events⟩)
    (hx : ∀ w ∈ reachedAll ts, w.setName? ≠ some x) : e'.get? x = e.get? x := by
  have hconfined : (evaluateAll ts).Confined ((reachedAll ts).filterMap getName?)
      ((reachedAll ts).filterMap setName?) := by
    apply confined_evaluateAll
    intro t ht
    apply confined_evaluate
    intro w hw
    have hmem := reached_subset_reachedAll ht w hw
    exact ⟨fun _ hy => List.mem_filterMap.mpr ⟨w, hmem, hy⟩,
      fun _ hy => List.mem_filterMap.mpr ⟨w, hmem, hy⟩⟩
  obtain ⟨_, bs, _, hbs, hsame⟩ := hconfined e
  obtain rfl : e' = e.bindAll bs := congrArg Outcome.env (hrun.symm.trans (hsame e fun _ _ => rfl))
  apply Env.get?_bindAll_of_not_mem
  rintro b hb rfl
  obtain ⟨w, hw, hwb⟩ := List.mem_filterMap.mp (hbs b hb)
  exact hx w hw hwb

/-- If some nodes fail, one of them is the first. -/
theorem exists_first_failure (h : ∃ u ∈ us, u.failure?.isSome) :
    ∃ before u after failure, us = before ++ u :: after ∧ (∀ w ∈ before, w.failure? = none) ∧
      u.failure? = some failure := by
  obtain ⟨u, hu⟩ := Option.isSome_iff_exists.mp (List.find?_isSome.mpr h)
  obtain ⟨hfails, before, after, hus, hbefore⟩ := List.find?_eq_some_iff_append.mp hu
  obtain ⟨failure, hfailure⟩ := Option.isSome_iff_exists.mp hfails
  exact ⟨before, u, after, failure, hus, fun w hw => by simpa using hbefore w hw, hfailure⟩

/-- **An evaluation stops at the first node that fails.** -/
theorem stops_of_first {before after : List Tree} (hreached : t.reached = before ++ u :: after)
    (hbefore : ∀ w ∈ before, w.failure? = none) (hu : u.failure? = some failure) :
    ∃ done, t.ComesTo done u ∧ (∀ w ∈ reachedAll done, u ∉ w.reached) ∧
      ∀ e, ∃ vs e' events, (evaluateAll done).run e = ⟨.ok vs, e', events⟩ ∧
        t.evaluate.run e = ⟨.error failure, e', events⟩ ∧
        ∀ x, (∀ w ∈ before, w.setName? = some x → u ∈ w.reached) → e'.get? x = e.get? x := by
  obtain ⟨done, hpath, hdone⟩ := exists_comesTo hreached
  have hsound : ∀ w ∈ reachedAll done, w.failure? = none := fun w hw =>
    (hdone w hw).elim (hbefore w) And.left
  have houtside : ∀ w ∈ reachedAll done, u ∉ w.reached := by
    intro w hw huw
    obtain ⟨d, hd, hwd⟩ := mem_reachedAll.mp hw
    have hnone := hsound u (reached_subset_reachedAll hd u (mem_reached_trans hwd huw))
    rw [hu] at hnone
    cases hnone
  refine ⟨done, hpath, houtside, fun e => ?_⟩
  have hreturns : (evaluateAll done).Stays (fun _ => True) (AllIn fun _ => True) :=
    stays_evaluateAll fun d hd => stays_of_failure? Value.isDomain_all fun w hw =>
      hsound w (reached_subset_reachedAll hd w hw)
  obtain ⟨vs, e', events, hrun, -⟩ := hreturns e fun _ _ _ => trivial
  refine ⟨vs, e', events, hrun, hpath.run hu hrun, fun x hx => ?_⟩
  apply get?_of_evaluateAll hrun
  intro w hw hwx
  rcases hdone w hw with hwbefore | ⟨-, hnone⟩
  · exact houtside w hw (hx w hwbefore hwx)
  · rw [hnone] at hwx
    cases hwx

/-- **Whether an evaluation fails, at which node, and what is done by then, can be read off the tree.** From
whatever variables, the evaluation fails exactly if a node that it comes to fails. It stops at the first of
these from left to right, with the failure of this node. The variables and the events are then those that
the trees completed on the way to the node leave, which are the same trees from whatever variables. None of
them has the node inside. In particular no `set` around the node has bound its name: a name keeps its value
if all that is come to before and would bind it has the node inside. -/
theorem evaluate_stops (t : Tree) :
    (∀ e, (∃ failure e' events, t.evaluate.run e = ⟨.error failure, e', events⟩) ↔
      ∃ u ∈ t.reached, u.failure?.isSome) ∧
    ∀ before u after failure, t.reached = before ++ u :: after →
      (∀ w ∈ before, w.failure? = none) → u.failure? = some failure →
      ∃ done, t.ComesTo done u ∧ (∀ w ∈ reachedAll done, u ∉ w.reached) ∧
        ∀ e, ∃ vs e' events, (evaluateAll done).run e = ⟨.ok vs, e', events⟩ ∧
          t.evaluate.run e = ⟨.error failure, e', events⟩ ∧
          ∀ x, (∀ w ∈ before, w.setName? = some x → u ∈ w.reached) → e'.get? x = e.get? x := by
  refine ⟨fun e => ⟨?_, ?_⟩, fun _ _ _ _ => stops_of_first⟩
  · rintro ⟨failure, e', events, hrun⟩
    apply Classical.byContradiction
    intro hnone
    have hsound : ∀ u ∈ t.reached, u.failure? = none := fun u hu =>
      Option.not_isSome_iff_eq_none.mp fun hfails => hnone ⟨u, hu, hfails⟩
    obtain ⟨_, _, _, hreturns, -⟩ := stays_of_failure? Value.isDomain_all hsound e fun _ _ _ => trivial
    rw [hrun] at hreturns
    cases (Outcome.mk.inj hreturns).1
  · intro hfails
    obtain ⟨before, u, after, failure, hreached, hbefore, hu⟩ := exists_first_failure hfails
    obtain ⟨done, -, -, hstops⟩ := stops_of_first hreached hbefore hu
    obtain ⟨_, e', events, -, hrun, -⟩ := hstops e
    exact ⟨failure, e', events, hrun⟩

/-- A `get` of a number of too many digits. -/
def unspelled : Tree := .list [.name "get", .number Numeral.limit]

/-- A binding inside a sum inside a print. One of its values has been bound when the evaluation comes to the
`get`; another part that fails stands behind it, and one stands where nothing is evaluated. -/
def brokenOff : Tree :=
  .list [.name "print", .list [.name "set", .text "x", .number 1],
    .list [.name "get", .list [.foreign .absent]],
    .list [.name "add", .number 2,
      .list [.name "set", .name "y", .list [.name "set", .name "z", .number 3], unspelled]],
    .foreign .absent]

/-- The nodes that its evaluation comes to before. -/
def beforeUnspelled : List Tree :=
  [brokenOff, .list [.name "set", .text "x", .number 1], .number 1,
    .list [.name "get", .list [.foreign .absent]],
    .list [.name "add", .number 2,
      .list [.name "set", .name "y", .list [.name "set", .name "z", .number 3], unspelled]],
    .number 2,
    .list [.name "set", .name "y", .list [.name "set", .name "z", .number 3], unspelled],
    .list [.name "set", .name "z", .number 3], .number 3]

/-- Only the binding around the `get` is one of `y`, which therefore stays as it was. -/
theorem evaluate_stops_brokenOff :
    brokenOff.reached = beforeUnspelled ++ unspelled :: [.foreign .absent] ∧
    (∀ w ∈ beforeUnspelled, w.failure? = none) ∧ unspelled.failure? = some .tooManyDigits ∧
    ∃ done, brokenOff.ComesTo done unspelled ∧ (∀ w ∈ reachedAll done, unspelled ∉ w.reached) ∧
      ∀ e, ∃ vs e' events, (evaluateAll done).run e = ⟨.ok vs, e', events⟩ ∧
        brokenOff.evaluate.run e = ⟨.error .tooManyDigits, e', events⟩ ∧
        ∀ x, (∀ w ∈ beforeUnspelled, w.setName? = some x → unspelled ∈ w.reached) →
          e'.get? x = e.get? x := by
  have hreached : brokenOff.reached = beforeUnspelled ++ unspelled :: [.foreign .absent] := rfl
  have hbefore : ∀ w ∈ beforeUnspelled, w.failure? = none := by decide +kernel
  have hmany : Numeral.maxDigits < (Nat.toDigits 10 (Int.natAbs Numeral.limit)).length := by
    rw [Int.natAbs_natCast]
    exact Nat.lt_of_not_le (mt Numeral.length_toDigits_le_maxDigits_iff.mp (Nat.lt_irrefl _))
  have hfails : unspelled.failure? = some .tooManyDigits :=
    failure?_eq_some_iff.mpr (.inr ⟨"get", Numeral.limit, [], rfl, rfl, hmany, rfl⟩)
  exact ⟨hreached, hbefore, hfails, (evaluate_stops brokenOff).2 _ _ _ _ hreached hbefore hfails⟩

end Tree
end FormLang
