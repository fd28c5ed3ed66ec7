import FormLang.Proofs.Tree.Evaluate
import FormLang.Proofs.Tree.Reached

/-!
# `FormLang.Proofs.Tree.Independence` — trees that do not get in each other's way

An action that looks up only some names and binds only some names does the same wherever the names that
it looks up have the same values: it has the same result, reports the same, and binds the same names to
the same values, in whatever variables there are besides. The evaluation of a tree is such an action, for
the names that the tree looks up and binds. If neither of two trees binds a name that the other one binds
or looks up, then neither can tell whether it is evaluated first.

## Contents
- `Env.bindAll`, `get?_bindAll_of_not_mem`, `get?_bindAll_congr`: variables after a list of bindings.
- `Env.AgreeOn`: variables with the same values of some names.
- `Action.Confined`: an action that looks up and binds only some names; `Confined.bind` and its companions.
- `confined_evaluate`: the evaluation of a tree is one.
- `Tree.Independent`, `evaluate_comm`: independent trees can be evaluated in either order.
-/

namespace FormLang

/-! ## Variables -/

namespace Env

/-- The variables with names and values bound one after the other. -/
def bindAll (e : Env) (bs : List (String × Value)) : Env := bs.foldl (fun e b => e.bind b.1 b.2) e

variable {e e' : Env} {names : List String} {x : String}

@[simp] theorem bindAll_nil (e : Env) : e.bindAll [] = e := rfl

@[simp] theorem bindAll_cons (e : Env) (b : String × Value) (bs : List (String × Value)) :
    e.bindAll (b :: bs) = (e.bind b.1 b.2).bindAll bs := rfl

theorem bindAll_append (e : Env) (bs cs : List (String × Value)) :
    e.bindAll (bs ++ cs) = (e.bindAll bs).bindAll cs :=
  List.foldl_append

/-- A binding does not tell variables apart that have the same value of a name. -/
theorem get?_bind_congr (h : e.get? x = e'.get? x) (y : String) (v : Value) :
    (e.bind y v).get? x = (e'.bind y v).get? x := by
  by_cases hx : x = y
  · rw [hx, get?_bind_self, get?_bind_self]
  · rw [get?_bind_of_ne e v hx, get?_bind_of_ne e' v hx, h]

/-- **Bindings do not tell variables apart** that have the same value of a name. -/
theorem get?_bindAll_congr (bs : List (String × Value)) (h : e.get? x = e'.get? x) :
    (e.bindAll bs).get? x = (e'.bindAll bs).get? x := by
  induction bs generalizing e e' with
  | nil => exact h
  | cons b bs ih =>
      rw [bindAll_cons, bindAll_cons]
      exact ih (get?_bind_congr h b.1 b.2)

/-- **A name that is not bound anew keeps its value.** -/
theorem get?_bindAll_of_not_mem {bs : List (String × Value)} (h : ∀ b ∈ bs, b.1 ≠ x) :
    (e.bindAll bs).get? x = e.get? x := by
  induction bs generalizing e with
  | nil => rfl
  | cons b bs ih =>
      rw [bindAll_cons, ih fun c hc => h c (List.mem_cons_of_mem b hc)]
      exact get?_bind_of_ne e b.2 (h b List.mem_cons_self).symm

/-- Bindings of different names can be made in either order. -/
theorem get?_bindAll_comm {bs cs : List (String × Value)}
    (h : ∀ b ∈ bs, ∀ c ∈ cs, b.1 ≠ c.1) (x : String) :
    ((e.bindAll bs).bindAll cs).get? x = ((e.bindAll cs).bindAll bs).get? x := by
  by_cases hx : ∃ b ∈ bs, b.1 = x
  · -- then the other bindings do not concern it
    obtain ⟨b, hb, rfl⟩ := hx
    have hcs : ∀ c ∈ cs, c.1 ≠ b.1 := fun c hc => (h b hb c hc).symm
    rw [get?_bindAll_of_not_mem hcs]
    exact get?_bindAll_congr bs (get?_bindAll_of_not_mem hcs).symm
  · have hbs : ∀ b ∈ bs, b.1 ≠ x := fun b hb hbx => hx ⟨b, hb, hbx⟩
    rw [get?_bindAll_of_not_mem hbs]
    exact get?_bindAll_congr cs (get?_bindAll_of_not_mem hbs)

/-- The variables have the same values of the names, or have none alike. -/
def AgreeOn (names : List String) (e e' : Env) : Prop := ∀ x ∈ names, e.get? x = e'.get? x

theorem AgreeOn.bindAll (h : e.AgreeOn names e') (bs : List (String × Value)) :
    (e.bindAll bs).AgreeOn names (e'.bindAll bs) :=
  fun x hx => get?_bindAll_congr bs (h x hx)

theorem agreeOn_bindAll {bs : List (String × Value)} (h : ∀ b ∈ bs, b.1 ∉ names) :
    e.AgreeOn names (e.bindAll bs) := by
  intro x hx
  refine (get?_bindAll_of_not_mem ?_).symm
  rintro b hb rfl
  exact h b hb hx

end Env

/-! ## Actions -/

namespace Action

variable {α β : Type} {reads writes : List String} {x : Action α}

/-- From whatever variables it starts, the action binds names in `writes` only, and it has the same
result, reports the same events and makes the same bindings from all variables that agree with these on
the names in `reads`. -/
def Confined (reads writes : List String) (x : Action α) : Prop :=
  ∀ e : Env, ∃ r bs events, (∀ b ∈ bs, b.1 ∈ writes) ∧
    ∀ e', e.AgreeOn reads e' → x.run e' = ⟨r, e'.bindAll bs, events⟩

/-- An action that does not look at the variables and leaves them alone. -/
theorem confined_of_run {r : Except Failure α} {events : List Event}
    (h : ∀ e, x.run e = ⟨r, e, events⟩) : x.Confined reads writes :=
  fun _ => ⟨r, [], events, fun _ hb => absurd hb List.not_mem_nil, fun e' _ => h e'⟩

theorem confined_pure (a : α) : (pure a : Action α).Confined reads writes :=
  confined_of_run (pure_run a)

theorem confined_log (v : Value) : (log v).Confined reads writes := confined_of_run (log_run v)

theorem confined_complain (d : Diagnostic) : (complain d).Confined reads writes :=
  confined_of_run (complain_run d)

theorem confined_fail (failure : Failure) : (fail failure : Action α).Confined reads writes :=
  confined_of_run (fail_run failure)

theorem confined_lookup {y : String} (h : y ∈ reads) : (lookup y).Confined reads writes := by
  intro e
  refine ⟨.ok (e.get? y), [], [], fun _ hb => absurd hb List.not_mem_nil, ?_⟩
  intro e' he'
  rw [lookup_run, he' y h]
  rfl

theorem confined_assign {y : String} (h : y ∈ writes) (v : Value) :
    (assign y v).Confined reads writes := by
  intro e
  refine ⟨.ok (), [(y, v)], [], ?_, fun _ _ => rfl⟩
  intro b hb
  rw [List.mem_singleton.mp hb]
  exact h

/-- **Two actions one after the other are confined** if the first is and the second is for every result
of the first. -/
theorem Confined.bind {f : α → Action β} (hx : x.Confined reads writes)
    (hf : ∀ a, (f a).Confined reads writes) : (x >>= f).Confined reads writes := by
  intro e
  obtain ⟨r, bs, events, hbs, hrun⟩ := hx e
  cases r with
  | error failure => exact ⟨.error failure, bs, events, hbs, fun e' he' => bind_run_error (hrun e' he')⟩
  | ok a =>
      -- the bindings of the first action keep the agreement that the second needs
      obtain ⟨r, cs, events', hcs, hrun'⟩ := hf a (e.bindAll bs)
      refine ⟨r, bs ++ cs, events ++ events', ?_, ?_⟩
      · intro b hb
        rcases List.mem_append.mp hb with hb | hb
        · exact hbs b hb
        · exact hcs b hb
      · intro e' he'
        rw [bind_run_ok (hrun e' he'), hrun' _ (he'.bindAll bs), Env.bindAll_append]

theorem Confined.map (f : α → β) (hx : x.Confined reads writes) : (f <$> x).Confined reads writes := by
  intro e
  obtain ⟨r, bs, events, hbs, hrun⟩ := hx e
  refine ⟨r.map f, bs, events, hbs, fun e' he' => ?_⟩
  rw [map_run, hrun e' he']

end Action

/-! ## Trees -/

namespace Tree

open FormLang.Action

variable {reads writes : List String} {t u : Tree} {ts : List Tree}

/-- The node looks up and binds, if anything, only these names. -/
def Names (reads writes : List String) (u : Tree) : Prop :=
  (∀ x, u.getName? = some x → x ∈ reads) ∧ ∀ x, u.setName? = some x → x ∈ writes

theorem confined_combineOperand (op : Operation) (soFar : Option Value) (v : Value) :
    (combineOperand op soFar v).Confined reads writes := by
  unfold combineOperand
  split
  · exact confined_pure _
  · exact (confined_complain _).bind fun _ => confined_pure _

theorem confined_evaluateAll (h : ∀ t ∈ ts, t.evaluate.Confined reads writes) :
    (evaluateAll ts).Confined reads writes := by
  induction ts with
  | nil => exact confined_pure []
  | cons t ts ih =>
      rw [evaluateAll]
      refine (h t List.mem_cons_self).bind fun v => ?_
      exact (ih fun u hu => h u (List.mem_cons_of_mem t hu)).map _

theorem confined_mapOperands {f : Value → Action Value} (hf : ∀ v, (f v).Confined reads writes)
    (h : ∀ t ∈ ts, t.evaluate.Confined reads writes) : (mapOperands f ts).Confined reads writes := by
  induction ts with
  | nil => exact confined_pure []
  | cons t ts ih =>
      rw [mapOperands]
      refine (h t List.mem_cons_self).bind fun v => (hf v.unwrap).bind fun r => ?_
      exact (ih fun u hu => h u (List.mem_cons_of_mem t hu)).map _

theorem confined_foldOperands {f : Option Value → Value → Action (Option Value)}
    (hf : ∀ s v, (f s v).Confined reads writes) (h : ∀ t ∈ ts, t.evaluate.Confined reads writes)
    (s : Option Value) : (foldOperands f s ts).Confined reads writes := by
  induction ts generalizing s with
  | nil => exact confined_pure s
  | cons t ts ih =>
      rw [foldOperands]
      refine (h t List.mem_cons_self).bind fun v => (hf s v.unwrap).bind fun s' => ?_
      exact ih (fun u hu => h u (List.mem_cons_of_mem t hu)) s'

theorem confined_readVariable
    (hname : ∀ slot rest x, ts = slot :: rest → slot.readName? = .ok (some x) → x ∈ reads) :
    (readVariable ts).Confined reads writes := by
  cases ts with
  | nil => exact (confined_complain .tooFewParameters).bind fun _ => confined_pure []
  | cons slot rest =>
      rw [readVariable]
      cases hslot : slot.readName? with
      | error failure => exact confined_of_run fun e => bind_run_error (ofExcept_run _ e)
      | ok name =>
          show Confined reads writes (pure name >>= _)
          rw [pure_bind]
          cases name with
          | none => exact confined_pure []
          | some x =>
              refine (confined_lookup (hname slot rest x rfl hslot)).bind fun bound => ?_
              cases bound with
              | none => exact confined_pure []
              | some v => exact confined_pure v.elements

theorem confined_bindVariable
    (hname : ∀ slot t rest x, ts = slot :: t :: rest → slot.boundName? = some x → x ∈ writes)
    (h : ∀ slot t rest x, ts = slot :: t :: rest → slot.boundName? = some x →
      ∀ u ∈ t :: rest, u.evaluate.Confined reads writes) :
    (bindVariable ts).Confined reads writes := by
  match ts with
  | [] => exact (confined_complain .tooFewParameters).bind fun _ => confined_pure []
  | [_] => exact (confined_complain .tooFewParameters).bind fun _ => confined_pure []
  | slot :: t :: rest =>
      rw [bindVariable]
      cases hslot : slot.boundName? with
      | none => exact (confined_complain .invalidName).bind fun _ => confined_pure []
      | some x =>
          have hargs := h slot t rest x rfl hslot
          have hrest : (mapOperands pure rest).Confined reads writes :=
            confined_mapOperands confined_pure fun u hu => hargs u (List.mem_cons_of_mem t hu)
          refine (hargs t List.mem_cons_self).bind fun v => hrest.bind fun vs => ?_
          exact (confined_assign (hname slot t rest x rfl hslot) _).bind fun _ => confined_pure _

/-- A node evaluates some of its elements, and looks up or binds the name that it has, if it has one. -/
theorem confined_evaluateForm (hnode : (list ts).Names reads writes)
    (h : ∀ t ∈ visited ts, t.evaluate.Confined reads writes) :
    (evaluateForm ts).Confined reads writes := by
  cases ts using formCases with
  | nil => exact confined_pure []
  | print s args hs =>
      rw [visited_print hs] at h
      rw [evaluateForm_print hs]
      exact confined_mapOperands (fun v => (confined_log v).bind fun _ => confined_pure v) h
  | arithmetic op s args hs =>
      rw [visited_arithmetic hs] at h
      rw [evaluateForm_arithmetic hs]
      exact (confined_foldOperands (confined_combineOperand op) h none).map _
  | set s args hs =>
      rw [evaluateForm_set hs]
      apply confined_bindVariable
      · rintro slot t rest x rfl hx
        exact hnode.2 x (setName?_set hs hx)
      · rintro slot t rest x rfl hx
        rwa [visited_set_of_boundName? hs hx] at h
  | get s args hs =>
      rw [evaluateForm_get hs]
      apply confined_readVariable
      rintro slot rest x rfl hx
      exact hnode.1 x (getName?_get hs hx)
  | unknown s args hs =>
      rw [evaluateForm_unknown hs]
      exact (confined_complain (.unknownCommand s)).bind fun _ => confined_pure _
  | data t ts hname =>
      rw [visited_of_not_name hname] at h
      rw [evaluateForm_of_not_name hname]
      exact confined_evaluateAll h

/-- **The evaluation of a tree looks up and binds no names but those of the nodes that it comes to.** -/
theorem confined_evaluate (h : ∀ u ∈ t.reached, u.Names reads writes) :
    t.evaluate.Confined reads writes := by
  induction t with
  | number n => exact confined_pure _
  | text s => exact confined_pure _
  | name s => exact confined_pure _
  | error message => exact (confined_complain (.malformed message)).bind fun _ => confined_pure _
  | foreign v => exact confined_fail _
  | list ts ih =>
      have hnode : (list ts).Names reads writes := h _ List.mem_cons_self
      rw [evaluate]
      refine (confined_evaluateForm hnode fun t ht => ?_).map _
      exact ih t (mem_of_mem_visited ht) fun u hu => h u (mem_reached_list ht hu)

/-- The names of a tree are those of its nodes. -/
theorem names_of_mem_reached (hu : u ∈ t.reached) : u.Names t.readNames t.boundNames :=
  ⟨fun _ hx => List.mem_filterMap.mpr ⟨u, hu, hx⟩, fun _ hx => List.mem_filterMap.mpr ⟨u, hu, hx⟩⟩

/-- **A tree does the same in variables that agree on the names that it looks up.** It has a value if it
has no foreign parts and its numbers can be written. -/
theorem evaluate_agreeOn (ht : t.Leaves IsOrdinary) (e : Env) :
    ∃ v bs events, (∀ b ∈ bs, b.1 ∈ t.boundNames) ∧
      ∀ e', e.AgreeOn t.readNames e' → t.evaluate.run e' = ⟨.ok v, e'.bindAll bs, events⟩ := by
  have hconfined : t.evaluate.Confined t.readNames t.boundNames :=
    confined_evaluate fun _ => names_of_mem_reached
  obtain ⟨r, bs, events, hbs, hrun⟩ := hconfined e
  obtain ⟨v, e', events', hreturns, -⟩ := stays_evaluate Value.isDomain_all ht e fun _ _ _ => trivial
  have hsame := hrun e fun _ _ => rfl
  rw [hreturns] at hsame
  obtain rfl : .ok v = r := congrArg Outcome.result hsame
  exact ⟨v, bs, events, hbs, hrun⟩

/-! ## Two trees -/

/-- Neither tree binds a name that the other one looks up or binds. -/
def Independent (t u : Tree) : Prop :=
  (∀ x ∈ t.boundNames, x ∉ u.readNames ∧ x ∉ u.boundNames) ∧
    ∀ x ∈ u.boundNames, x ∉ t.readNames ∧ x ∉ t.boundNames

instance (t u : Tree) : Decidable (t.Independent u) := inferInstanceAs (Decidable (_ ∧ _))

/-- **Independent trees commute.** Of two trees without foreign parts whose numbers can be written, let
neither bind a name that the other one looks up or binds. Evaluated one after the other, from whatever
variables, each of them has the same value and reports the same events whether it comes first or second,
and in the end every name has the same value or none. -/
theorem evaluate_comm (ht : t.Leaves IsOrdinary) (hu : u.Leaves IsOrdinary) (htu : t.Independent u)
    (e : Env) :
    ∃ v w events events' e₁ e₂ e₁₂ e₂₁,
      t.evaluate.run e = ⟨.ok v, e₁, events⟩ ∧ u.evaluate.run e₁ = ⟨.ok w, e₁₂, events'⟩ ∧
      u.evaluate.run e = ⟨.ok w, e₂, events'⟩ ∧ t.evaluate.run e₂ = ⟨.ok v, e₂₁, events⟩ ∧
      ∀ x, e₁₂.get? x = e₂₁.get? x := by
  obtain ⟨v, bs, events, hbs, hrun⟩ := evaluate_agreeOn ht e
  obtain ⟨w, cs, events', hcs, hrun'⟩ := evaluate_agreeOn hu e
  refine ⟨v, w, events, events', e.bindAll bs, e.bindAll cs, (e.bindAll bs).bindAll cs,
    (e.bindAll cs).bindAll bs, ?_, ?_, ?_, ?_, ?_⟩
  · exact hrun e fun _ _ => rfl
  · exact hrun' _ (Env.agreeOn_bindAll fun b hb => (htu.1 b.1 (hbs b hb)).1)
  · exact hrun' e fun _ _ => rfl
  · exact hrun _ (Env.agreeOn_bindAll fun c hc => (htu.2 c.1 (hcs c hc)).1)
  · apply Env.get?_bindAll_comm
    intro b hb c hc hbc
    exact (htu.1 b.1 (hbs b hb)).2 (hbc ▸ hcs c hc)

/-- A tree that binds a variable to what it looks up under a number, inside the operands of a sum. -/
def addsSetting : Tree :=
  .list [.name "add", .list [.name "set", .text "x", .list [.name "get", .number 7]], .number 1]

/-- A tree that logs what it looks up, and binds another variable within a list. -/
def logsGetting : Tree :=
  .list [.list [.name "print", .list [.name "get", .name "y"]],
    .list [.name "set", .name "z", .list [.name "get", .name "y"], .text "x"]]

/-- The text `x` in the second tree, which is no slot, does not matter. -/
theorem evaluate_comm_addsSetting :
    addsSetting.Leaves IsOrdinary ∧ logsGetting.Leaves IsOrdinary ∧
    addsSetting.Independent logsGetting ∧
    ∃ v w events events' e₁ e₂ e₁₂ e₂₁,
      addsSetting.evaluate.run (Env.empty.bind "y" (.text "b")) = ⟨.ok v, e₁, events⟩ ∧
      logsGetting.evaluate.run e₁ = ⟨.ok w, e₁₂, events'⟩ ∧
      logsGetting.evaluate.run (Env.empty.bind "y" (.text "b")) = ⟨.ok w, e₂, events'⟩ ∧
      addsSetting.evaluate.run e₂ = ⟨.ok v, e₂₁, events⟩ ∧ ∀ x, e₁₂.get? x = e₂₁.get? x := by
  have hadds : addsSetting.Leaves IsOrdinary := by decide +kernel
  have hlogs : logsGetting.Leaves IsOrdinary := by decide +kernel
  have hindependent : addsSetting.Independent logsGetting := by decide +kernel
  exact ⟨hadds, hlogs, hindependent, evaluate_comm hadds hlogs hindependent _⟩

end Tree
end FormLang
