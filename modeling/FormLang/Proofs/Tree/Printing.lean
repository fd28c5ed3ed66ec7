import FormLang.Proofs.Tree.Effects
import Mathlib.Data.List.Forall2
import Mathlib.Logic.Relation

/-!
# `FormLang.Proofs.Tree.Printing` — arguments can be printed where they stand

A `print` command with one argument is worth a list of one, and a command sees such a list as the value
in it. So an argument of a command may be put inside `print` to have a look at it: the command sees what
it saw before, whatever kind of value this is, and only one more value is logged. It does not matter how
deep inside a tree this is done, and it may be done many times. The argument compares actions that differ
in what they log, with a lemma for each way in which actions are put together.

## Contents
- `FewerLogs`: events without some of the values logged.
- `Action.Quieter`, `Quieter.bind`: an action that does the same as another and logs less.
- `Tree.operand`, `operand_print`: what a command sees of an argument, and of the argument inside `print`.
- `Tree.StandsFor`, `quieter_evaluateForm`: trees that may stand in the place of others.
- `Tree.PrintsOne`: a tree with one more argument inside `print`; `standsFor_of_printsOne`.
- `evaluate_printed`: a tree with any number of them.
-/

namespace FormLang

/-! ## Events with fewer values logged -/

/-- The first events are the second ones without some of the values that these log: they come in the same
order, and no diagnostic is missing. -/
structure FewerLogs (events events' : List Event) : Prop where
  sublist : events.Sublist events'
  errors : events.filter (!·.isLog) = events'.filter (!·.isLog)

namespace FewerLogs

variable {a b c a' b' : List Event}

theorem refl (a : List Event) : FewerLogs a a := ⟨List.Sublist.refl a, rfl⟩

theorem trans (h : FewerLogs a b) (h' : FewerLogs b c) : FewerLogs a c :=
  ⟨h.sublist.trans h'.sublist, h.errors.trans h'.errors⟩

theorem append (h : FewerLogs a b) (h' : FewerLogs a' b') : FewerLogs (a ++ a') (b ++ b') := by
  refine ⟨h.sublist.append h'.sublist, ?_⟩
  rw [List.filter_append, List.filter_append, h.errors, h'.errors]

/-- One value more is logged. -/
theorem log (v : Value) : FewerLogs [] [.log v] := ⟨List.nil_sublist _, rfl⟩

end FewerLogs

namespace Action

variable {α β : Type} {x y z : Action α}

/-- From whatever variables they start, the actions end alike and leave the same variables, and the first
one reports the same as the second without some of the values that this logs. -/
def Quieter (x y : Action α) : Prop :=
  ∀ e, (x.run e).result = (y.run e).result ∧ (x.run e).env = (y.run e).env ∧
    FewerLogs (x.run e).events (y.run e).events

theorem Quieter.refl (x : Action α) : x.Quieter x := fun _ => ⟨rfl, rfl, .refl _⟩

theorem Quieter.trans (h : x.Quieter y) (h' : y.Quieter z) : x.Quieter z := by
  intro e
  obtain ⟨hresult, henv, hevents⟩ := h e
  obtain ⟨hresult', henv', hevents'⟩ := h' e
  exact ⟨hresult.trans hresult', henv.trans henv', hevents.trans hevents'⟩

/-- **Two actions one after the other are quieter** if the first is and the second is for every result of
the first. -/
theorem Quieter.bind {f g : α → Action β} (h : x.Quieter y) (hf : ∀ a, (f a).Quieter (g a)) :
    (x >>= f).Quieter (y >>= g) := by
  intro e
  obtain ⟨hresult, henv, hevents⟩ := h e
  rw [bind_run, bind_run]
  generalize x.run e = o at hresult henv hevents
  generalize y.run e = o' at hresult henv hevents
  obtain ⟨r, e₁, events⟩ := o
  obtain ⟨r', e₁', events'⟩ := o'
  obtain rfl : r = r' := hresult
  obtain rfl : e₁ = e₁' := henv
  cases r with
  | error failure => exact ⟨rfl, rfl, hevents⟩
  | ok a =>
      obtain ⟨hresult', henv', hevents'⟩ := hf a e₁
      exact ⟨hresult', henv', hevents.append hevents'⟩

theorem Quieter.map (f : α → β) (h : x.Quieter y) : (f <$> x).Quieter (f <$> y) := by
  rw [← bind_pure_comp, ← bind_pure_comp]
  exact h.bind fun a => .refl (pure (f a))

end Action

/-! ## Arguments of commands -/

namespace Tree

open FormLang.Action

variable {s : String} {t u slot slot' : Tree} {ts us : List Tree}

/-- What a command sees of an argument. -/
def operand (t : Tree) : Action Value := Value.unwrap <$> t.evaluate

/-- A command that sees the first tree cannot tell the second from it but by what is logged. -/
def QuieterOperand (t u : Tree) : Prop := t.operand.Quieter u.operand

theorem mapOperands_cons (f : Value → Action Value) (t : Tree) (ts : List Tree) :
    mapOperands f (t :: ts)
      = t.operand >>= fun v => f v >>= fun r => (r :: ·) <$> mapOperands f ts := by
  rw [mapOperands, operand, bind_map_left]

theorem foldOperands_cons (f : Option Value → Value → Action (Option Value)) (soFar : Option Value)
    (t : Tree) (ts : List Tree) :
    foldOperands f soFar (t :: ts)
      = t.operand >>= fun v => f soFar v >>= fun soFar' => foldOperands f soFar' ts := by
  rw [foldOperands, operand, bind_map_left]

/-- Inside `print` an argument is logged, and seen as it was. -/
theorem operand_print (hs : Command.ofName? s = some .print) (t : Tree) :
    (list [.name s, t]).operand = t.operand >>= printOperand := by
  have hunwrap : ∀ v, (Value.list [v]).unwrap = v := fun _ => rfl
  rw [operand, evaluate, evaluateForm_print hs, mapOperands_cons, mapOperands]
  simp only [map_bind, map_pure, hunwrap, bind_pure]

/-- **An argument is quieter by itself than inside `print`.** -/
theorem quieterOperand_print (hs : Command.ofName? s = some .print) (t : Tree) :
    t.QuieterOperand (list [.name s, t]) := by
  have hprint : ∀ v, (pure v : Action Value).Quieter (printOperand v) :=
    fun v e => ⟨rfl, rfl, .log v⟩
  have hbind := (Quieter.refl t.operand).bind hprint
  rw [bind_pure] at hbind
  rw [QuieterOperand, operand_print hs]
  exact hbind

theorem quieter_mapOperands (f : Value → Action Value) (h : List.Forall₂ QuieterOperand ts us) :
    (mapOperands f ts).Quieter (mapOperands f us) := by
  induction h with
  | nil => exact .refl _
  | cons hhead _ ih =>
      rw [mapOperands_cons, mapOperands_cons]
      exact hhead.bind fun v => (Quieter.refl (f v)).bind fun r => ih.map (r :: ·)

theorem quieter_foldOperands (f : Option Value → Value → Action (Option Value))
    (h : List.Forall₂ QuieterOperand ts us) (soFar : Option Value) :
    (foldOperands f soFar ts).Quieter (foldOperands f soFar us) := by
  induction h generalizing soFar with
  | nil => exact .refl _
  | cons hhead _ ih =>
      rw [foldOperands_cons, foldOperands_cons]
      exact hhead.bind fun v => (Quieter.refl (f soFar v)).bind fun soFar' => ih soFar'

theorem quieter_bindVariable (hslot : slot.boundName? = slot'.boundName?)
    (h : List.Forall₂ QuieterOperand ts us) :
    (bindVariable (slot :: ts)).Quieter (bindVariable (slot' :: us)) := by
  cases h with
  | nil => exact .refl _
  | cons hhead hrest =>
      rw [bindVariable, bindVariable, hslot]
      cases slot'.boundName? with
      | none => exact .refl _
      | some x =>
          have hbind := hhead.bind fun v => (quieter_mapOperands pure hrest).bind fun vs =>
            Quieter.refl (assign x (packed (v :: vs)) >>= fun _ => pure (v :: vs))
          rw [operand, operand, bind_map_left, bind_map_left] at hbind
          exact hbind

/-! ## Trees in the place of others -/

/-- The second tree may stand wherever the first does: besides being quieter, the first gives the same
name to a variable, and neither of them makes a command where the other makes none. -/
structure StandsFor (t u : Tree) : Prop where
  quieter : t.evaluate.Quieter u.evaluate
  boundName : t.boundName? = u.boundName?
  readName : t.readName? = u.readName?
  name_iff : ∀ s, t = .name s ↔ u = .name s

theorem StandsFor.refl (t : Tree) : t.StandsFor t := ⟨.refl _, rfl, rfl, fun _ => Iff.rfl⟩

theorem StandsFor.operand (h : t.StandsFor u) : t.QuieterOperand u := h.quieter.map Value.unwrap

/-- A list gives no name to anything. -/
theorem standsFor_list (h : (evaluateForm ts).Quieter (evaluateForm us)) :
    (list ts).StandsFor (list us) where
  quieter := h.map Value.list
  boundName := rfl
  readName := rfl
  name_iff _ := ⟨fun hlist => (nomatch hlist), fun hlist => (nomatch hlist)⟩

theorem quieter_evaluateAll (h : List.Forall₂ StandsFor ts us) :
    (evaluateAll ts).Quieter (evaluateAll us) := by
  induction h with
  | nil => exact .refl _
  | cons hhead _ ih =>
      rw [evaluateAll, evaluateAll]
      exact hhead.quieter.bind fun v => ih.map (v :: ·)

theorem quieter_readVariable (h : List.Forall₂ StandsFor ts us) :
    (readVariable ts).Quieter (readVariable us) := by
  cases h with
  | nil => exact .refl _
  | cons hslot _ =>
      rw [readVariable, readVariable, hslot.readName]
      exact .refl _

/-- **Trees in the place of others make a list quieter**, whatever it is evaluated as. -/
theorem quieter_evaluateForm (h : List.Forall₂ StandsFor ts us) :
    (evaluateForm ts).Quieter (evaluateForm us) := by
  have hoperands : ∀ {args args'}, List.Forall₂ StandsFor args args' →
      List.Forall₂ QuieterOperand args args' := fun h => h.imp fun _ _ => StandsFor.operand
  -- a command stands under its name in either list
  have hname : ∀ {s args}, List.Forall₂ StandsFor (.name s :: args) us →
      ∃ args', us = .name s :: args' ∧ List.Forall₂ StandsFor args args' := by
    rintro s args (_ | ⟨hhead, hrest⟩)
    exact ⟨_, by rw [(hhead.name_iff s).mp rfl], hrest⟩
  cases ts using formCases with
  | nil =>
      cases h
      exact .refl _
  | print s args hs =>
      obtain ⟨args', rfl, hrest⟩ := hname h
      rw [evaluateForm_print hs, evaluateForm_print hs]
      exact quieter_mapOperands _ (hoperands hrest)
  | arithmetic op s args hs =>
      obtain ⟨args', rfl, hrest⟩ := hname h
      rw [evaluateForm_arithmetic hs, evaluateForm_arithmetic hs]
      exact (quieter_foldOperands _ (hoperands hrest) none).map _
  | set s args hs =>
      obtain ⟨args', rfl, hrest⟩ := hname h
      rw [evaluateForm_set hs, evaluateForm_set hs]
      cases hrest with
      | nil => exact .refl _
      | cons hslot hvalues => exact quieter_bindVariable hslot.boundName (hoperands hvalues)
  | get s args hs =>
      obtain ⟨args', rfl, hrest⟩ := hname h
      rw [evaluateForm_get hs, evaluateForm_get hs]
      exact quieter_readVariable hrest
  | unknown s args hs =>
      obtain ⟨args', rfl, hrest⟩ := hname h
      rw [evaluateForm_unknown hs, evaluateForm_unknown hs]
      exact .refl _
  | data t ts ht =>
      obtain _ | ⟨hhead, hrest⟩ := h
      rw [evaluateForm_of_not_name ht,
        evaluateForm_of_not_name fun s hu => ht s ((hhead.name_iff s).mpr hu)]
      exact quieter_evaluateAll (.cons hhead hrest)

/-! ## Arguments inside `print` -/

/-- The second tree is the first with one more argument of a command inside `print`: an argument of `print`
or of arithmetic, or a value that `set` binds, somewhere in the tree. -/
inductive PrintsOne : Tree → Tree → Prop
  | argument {s : String} (hs : Command.ofName? s = some .print ∨
        ∃ op, Command.ofName? s = some (.arithmetic op)) (before : List Tree) (t : Tree)
      (after : List Tree) :
      PrintsOne (.list (.name s :: (before ++ t :: after)))
        (.list (.name s :: (before ++ .list [.name "print", t] :: after)))
  | value {s : String} (hs : Command.ofName? s = some .set) (slot : Tree) (before : List Tree)
      (t : Tree) (after : List Tree) :
      PrintsOne (.list (.name s :: slot :: (before ++ t :: after)))
        (.list (.name s :: slot :: (before ++ .list [.name "print", t] :: after)))
  | inside (before : List Tree) {t u : Tree} (h : PrintsOne t u) (after : List Tree) :
      PrintsOne (.list (before ++ t :: after)) (.list (before ++ u :: after))

/-- One tree in a list is related to another if all are related to themselves. -/
theorem forall₂_replace {r : Tree → Tree → Prop} (hr : ∀ t, r t t) (before after : List Tree)
    (h : r t u) : List.Forall₂ r (before ++ t :: after) (before ++ u :: after) :=
  List.rel_append (List.forall₂_same.mpr fun t _ => hr t)
    (.cons h (List.forall₂_same.mpr fun t _ => hr t))

/-- **A tree may stand for the same tree with one more argument inside `print`.** -/
theorem standsFor_of_printsOne (h : t.PrintsOne u) : t.StandsFor u := by
  have hprinted : ∀ before t after, List.Forall₂ QuieterOperand (before ++ t :: after)
      (before ++ .list [.name "print", t] :: after) := fun before t after =>
    forall₂_replace (fun t => Quieter.refl t.operand) before after (quieterOperand_print rfl t)
  induction h with
  | argument hs before t after =>
      apply standsFor_list
      rcases hs with hs | ⟨op, hs⟩
      · rw [evaluateForm_print hs, evaluateForm_print hs]
        exact quieter_mapOperands _ (hprinted before t after)
      · rw [evaluateForm_arithmetic hs, evaluateForm_arithmetic hs]
        exact (quieter_foldOperands _ (hprinted before t after) none).map _
  | value hs slot before t after =>
      apply standsFor_list
      rw [evaluateForm_set hs, evaluateForm_set hs]
      exact quieter_bindVariable rfl (hprinted before t after)
  | inside before _ after ih =>
      exact standsFor_list (quieter_evaluateForm (forall₂_replace StandsFor.refl before after ih))

/-- **Arguments can be printed where they stand.** Let any arguments of commands, wherever they are in a
tree, be put inside `print`. Evaluated from whatever variables, the tree ends as it did before, with the
same value if it had one, and leaves the same variables. It reports the same diagnostics in the same order,
and what it reported before is what it reports now without some of the values logged. -/
theorem evaluate_printed (h : Relation.ReflTransGen PrintsOne t u) (e : Env) :
    ∃ events, u.evaluate.run e = ⟨(t.evaluate.run e).result, (t.evaluate.run e).env, events⟩ ∧
      (t.evaluate.run e).events.filter (!·.isLog) = events.filter (!·.isLog) ∧
      (t.evaluate.run e).events.Sublist events := by
  have hquieter : t.evaluate.Quieter u.evaluate := by
    induction h with
    | refl => exact .refl _
    | tail _ hstep ih => exact ih.trans (standsFor_of_printsOne hstep).quieter
  obtain ⟨hresult, henv, hevents⟩ := hquieter e
  exact ⟨(u.evaluate.run e).events, Outcome.ext hresult.symm henv.symm rfl, hevents.errors,
    hevents.sublist⟩

/-- Operands of a division that are a list of a list, a text and nothing, the first of them bound. -/
def unprinted : Tree :=
  .list [.name "div", .list [.name "set", .text "x", .list [.list [.number 5]]], .text "a", .list []]

/-- The same with what is bound and the binding inside `print`, and twice so with nothing. -/
def printed : Tree :=
  .list [.name "div",
    .list [.name "print",
      .list [.name "set", .text "x", .list [.name "print", .list [.list [.number 5]]]]],
    .text "a", .list [.name "print", .list [.name "print", .list []]]]

/-- None of the operands is a number, and all of them stay what they are. -/
theorem evaluate_printed_operands :
    Relation.ReflTransGen PrintsOne unprinted printed ∧
    (unprinted.evaluate.run Env.empty).result = .ok (.list []) ∧
    ∃ events, printed.evaluate.run Env.empty =
        ⟨(unprinted.evaluate.run Env.empty).result, (unprinted.evaluate.run Env.empty).env, events⟩ ∧
      (unprinted.evaluate.run Env.empty).events.filter (!·.isLog) = events.filter (!·.isLog) ∧
      (unprinted.evaluate.run Env.empty).events.Sublist events := by
  have hvalue : PrintsOne (.list [.name "set", .text "x", .list [.list [.number 5]]])
      (.list [.name "set", .text "x", .list [.name "print", .list [.list [.number 5]]]]) :=
    .value rfl _ [] _ []
  have hbinding := PrintsOne.argument (s := "div") (.inr ⟨.div, rfl⟩) []
    (.list [.name "set", .text "x", .list [.name "print", .list [.list [.number 5]]]])
    [.text "a", .list []]
  have hnothing := PrintsOne.argument (s := "div") (.inr ⟨.div, rfl⟩)
    [.list [.name "print",
      .list [.name "set", .text "x", .list [.name "print", .list [.list [.number 5]]]]], .text "a"]
    (.list []) []
  have hagain : PrintsOne (.list [.name "print", .list []])
      (.list [.name "print", .list [.name "print", .list []]]) :=
    .argument (.inl rfl) [] _ []
  have hall : Relation.ReflTransGen PrintsOne unprinted printed :=
    (((Relation.ReflTransGen.single (.inside [.name "div"] hvalue _)).tail hbinding).tail hnothing).tail
      (.inside [.name "div", _, .text "a"] hagain [])
  exact ⟨hall, rfl, evaluate_printed hall Env.empty⟩

end Tree
end FormLang
