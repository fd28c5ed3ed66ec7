import FormLang.Proofs.Tree.Operands

/-!
# `FormLang.Proofs.Tree.Variable` — what is read back of what was bound

Binding a variable takes the operands out of lists of one, keeps a single operand by itself, and gives a
list of all of them. Looking it up gives a list again: its elements if the variable holds a list, else
what it holds alone. A command takes the list of one apart once more. So a command sees what was bound,
and the same as if the binding itself stood there, unless this is a list of one: of such a list it sees
the element.

## Contents
- `Value.unwrap_eq_self_iff`: the values that are their own operands; `unwrap_list_elements`.
- `unwrap_list_eq_packed`: a command sees of a binding what is bound.
- `bindVariable_run`, `readVariable_run`: the outcomes of binding and of looking up.
- `evaluate_get_set`: a variable after its binding.
-/

namespace FormLang

namespace Value

variable {v w : Value}

theorem ne_list_self (v : Value) : v ≠ .list [v] := by
  intro h
  have hsize := congrArg sizeOf h
  simp only [list.sizeOf_spec, List.cons.sizeOf_spec] at hsize
  omega

/-- A value is its own operand exactly if it is no list of one. -/
theorem unwrap_eq_self_iff : v.unwrap = v ↔ ∀ w, v ≠ .list [w] := by
  unfold unwrap
  split
  · next w => simp [ne_list_self]
  · next hv => exact ⟨fun _ w => hv w, fun _ => rfl⟩

theorem elements_of_not_list (h : ∀ vs, v ≠ .list vs) : v.elements = [v] := by
  cases v with
  | list vs => exact absurd rfl (h vs)
  | _ => rfl

/-- What a command sees of the elements of a value is what it sees of the value. -/
theorem unwrap_list_elements (v : Value) : (list v.elements).unwrap = v.unwrap := by
  cases v <;> rfl

end Value

namespace Tree

open FormLang.Action

variable {slot : Tree} {x : String} {args rest : List Tree} {ws : List Value} {v : Value}
  {e e' : Env} {events : List Event}

/-- **A command sees of a binding what is bound.** -/
theorem unwrap_list_eq_packed (vs : List Value) : (Value.list vs).unwrap = packed vs := by
  match vs with
  | [] => rfl
  | [_] => rfl
  | _ :: _ :: _ => rfl

theorem packed_of_length_ne_one {vs : List Value} (h : vs.length ≠ 1) : packed vs = .list vs := by
  match vs with
  | [] => rfl
  | [_] => exact absurd rfl h
  | _ :: _ :: _ => rfl

/-- Binding evaluates the arguments and binds the name to what they amount to. -/
theorem bindVariable_run (hslot : slot.boundName? = some x) (hargs : args ≠ [])
    (h : (evaluateAll args).run e = ⟨.ok ws, e', events⟩) :
    (bindVariable (slot :: args)).run e =
      ⟨.ok (ws.map Value.unwrap), e'.bind x (packed (ws.map Value.unwrap)), events⟩ := by
  rw [bindVariable_eq hslot hargs, bind_run_ok h, bind_run_ok (assign_run x _ e'), pure_run]
  simp

/-- Looking up a variable changes nothing and reports nothing, whether it is bound or not. -/
theorem readVariable_run (hslot : slot.readName? = .ok (some x)) (e : Env) :
    (readVariable (slot :: rest)).run e = ⟨.ok ((e.get? x).elim [] Value.elements), e, []⟩ := by
  have hname : (ofExcept slot.readName?).run e = ⟨.ok (some x), e, []⟩ := by rw [hslot, ofExcept_run]
  rw [readVariable, bind_run_ok hname, bind_run_ok (lookup_run x e)]
  cases e.get? x <;> rfl

/-- **What is read back of what was bound.** Let a name be bound to arguments that return. The binding is
worth the list of their operands, and what it binds, whatever they bound the name to before, is the
operand if there is one and the list of them if there are several; a command that has the binding as
argument sees just this. Looking up the name, in whatever way it is spelled, then changes and reports
nothing, and is worth what is bound if this is a list and else the list of it alone. A command that has
this as argument sees what is bound, unless that is a list of one. -/
theorem evaluate_get_set (hslot : slot.boundName? = some x) (hargs : args ≠ [])
    (h : (evaluateAll args).run e = ⟨.ok ws, e', events⟩) :
    ∃ b, (∀ w, ws = [w] → b = w.unwrap) ∧ (ws.length ≠ 1 → b = .list (ws.map Value.unwrap)) ∧
      (list (.name "set" :: slot :: args)).evaluate.run e =
        ⟨.ok (.list (ws.map Value.unwrap)), e'.bind x b, events⟩ ∧
      (Value.list (ws.map Value.unwrap)).unwrap = b ∧
      ∀ slot' rest, slot'.readName? = .ok (some x) →
        ∃ r, (list (.name "get" :: slot' :: rest)).evaluate.run (e'.bind x b) =
            ⟨.ok r, e'.bind x b, []⟩ ∧
          ((∀ vs, b ≠ .list vs) → r = .list [b]) ∧ (∀ vs, b = .list vs → r = b) ∧
          (r.unwrap = b ↔ ∀ w, b ≠ .list [w]) := by
  refine ⟨packed (ws.map Value.unwrap), ?_, ?_, ?_, unwrap_list_eq_packed _, ?_⟩
  · rintro w rfl
    rfl
  · intro hlength
    exact packed_of_length_ne_one (by rwa [List.length_map])
  · rw [evaluate, map_run, evaluateForm_set rfl, bindVariable_run hslot hargs h]
    rfl
  · intro slot' rest hslot'
    generalize packed (ws.map Value.unwrap) = b
    refine ⟨.list b.elements, ?_, ?_, ?_, ?_⟩
    · rw [evaluate, map_run, evaluateForm_get rfl, readVariable_run hslot', Env.get?_bind_self]
      rfl
    · intro hb
      rw [Value.elements_of_not_list hb]
    · rintro vs rfl
      rfl
    · rw [Value.unwrap_list_elements, Value.unwrap_eq_self_iff]

/-- Lists around a binding of the very name that is to be bound to them. -/
def boundInside : Tree := .list [.list [.list [.name "set", .text "7", .number 5]]]

/-- What they are worth. -/
def fiveInside : Value := .list [.list [.list [.int 5]]]

/-- What is bound is a list of one, the exception. It replaces the number bound inside, and is looked up
under a number. -/
theorem evaluate_get_set_boundInside :
    (text "7").boundName? = some "7" ∧ [boundInside] ≠ [] ∧
    (evaluateAll [boundInside]).run Env.empty = ⟨.ok [fiveInside], Env.empty.bind "7" (.int 5), []⟩ ∧
    (number 7).readName? = .ok (some "7") ∧
    ∃ b, (∀ w, [fiveInside] = [w] → b = w.unwrap) ∧
      ([fiveInside].length ≠ 1 → b = .list ([fiveInside].map Value.unwrap)) ∧
      (list [.name "set", .text "7", boundInside]).evaluate.run Env.empty =
        ⟨.ok (.list ([fiveInside].map Value.unwrap)), (Env.empty.bind "7" (.int 5)).bind "7" b, []⟩ ∧
      (Value.list ([fiveInside].map Value.unwrap)).unwrap = b ∧
      ∃ r, (list [.name "get", .number 7]).evaluate.run ((Env.empty.bind "7" (.int 5)).bind "7" b) =
          ⟨.ok r, (Env.empty.bind "7" (.int 5)).bind "7" b, []⟩ ∧
        ((∀ vs, b ≠ .list vs) → r = .list [b]) ∧ (∀ vs, b = .list vs → r = b) ∧
        (r.unwrap = b ↔ ∀ w, b ≠ .list [w]) := by
  have hspelled : (number 7).readName? = .ok (some "7") := by
    rw [readName?, Numeral.digitsOrFail_of_lt (by decide +kernel)]
    rfl
  obtain ⟨b, hone, hmore, hset, hoperand, hget⟩ :=
    evaluate_get_set (rfl : (text "7").boundName? = some "7") (by decide : [boundInside] ≠ [])
      (rfl : (evaluateAll [boundInside]).run Env.empty
        = ⟨.ok [fiveInside], Env.empty.bind "7" (.int 5), []⟩)
  exact ⟨rfl, by decide, rfl, hspelled, b, hone, hmore, hset, hoperand, hget _ [] hspelled⟩

end Tree
end FormLang
