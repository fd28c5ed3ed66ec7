import FormLang.Action

/-!
# `FormLang.Proofs.Action` — actions that return

An action returns if it ends with a result and not with a failure. What an action needs for that, and
what it leaves behind, is said by a condition on the variables that it keeps, a condition on its result,
and a condition on every event that it reports. There is one lemma for each way in which actions are
put together.

## Contents
- `Action.Returns`: an action that ends with a result and keeps these conditions.
- `returns_pure`, `Returns.bind` and their companions.
-/

namespace FormLang
namespace Action

variable {α β : Type} {inv : Env → Prop} {shown : Event → Prop} {post : α → Prop} {x : Action α}

/-- Started from variables with `inv`, the action ends with a result for which `post` holds. The
variables have `inv` again, and `shown` holds for every event that it reports. -/
def Returns (inv : Env → Prop) (shown : Event → Prop) (post : α → Prop) (x : Action α) : Prop :=
  ∀ e, inv e → ∃ a e' events,
    x.run e = ⟨.ok a, e', events⟩ ∧ post a ∧ inv e' ∧ ∀ event ∈ events, shown event

theorem returns_pure {a : α} (h : post a) : (pure a : Action α).Returns inv shown post :=
  fun e he => ⟨a, e, [], rfl, h, he, fun _ hmem => absurd hmem List.not_mem_nil⟩

/-- **Two actions one after the other return** if the first does and the second does for every result
that the first may have. -/
theorem Returns.bind {f : α → Action β} {post' : β → Prop} (hx : x.Returns inv shown post)
    (hf : ∀ a, post a → (f a).Returns inv shown post') : (x >>= f).Returns inv shown post' := by
  intro e he
  obtain ⟨a, e', events, hrun, ha, he', hevents⟩ := hx e he
  obtain ⟨b, e'', events', hrun', hb, he'', hevents'⟩ := hf a ha e' he'
  refine ⟨b, e'', events ++ events', ?_, hb, he'', ?_⟩
  · rw [bind_run_ok hrun, hrun']
  · intro event hmem
    rcases List.mem_append.mp hmem with hmem | hmem
    · exact hevents event hmem
    · exact hevents' event hmem

theorem Returns.map {f : α → β} {post' : β → Prop} (hx : x.Returns inv shown post)
    (hf : ∀ a, post a → post' (f a)) : (f <$> x).Returns inv shown post' := by
  intro e he
  obtain ⟨a, e', events, hrun, ha, he', hevents⟩ := hx e he
  refine ⟨f a, e', events, ?_, hf a ha, he', hevents⟩
  rw [map_run, hrun]
  rfl

theorem returns_report {event : Event} (h : shown event) :
    (report event).Returns inv shown fun _ => True := by
  intro e he
  refine ⟨(), e, [event], rfl, trivial, he, ?_⟩
  intro event' hmem
  rwa [List.mem_singleton.mp hmem]

theorem returns_log {v : Value} (h : shown (.log v)) : (log v).Returns inv shown fun _ => True :=
  returns_report h

theorem returns_complain {d : Diagnostic} (h : shown (.error d)) :
    (complain d).Returns inv shown fun _ => True :=
  returns_report h

theorem returns_ofExcept {a : α} {r : Except Failure α} (hr : r = .ok a) (h : post a) :
    (ofExcept r).Returns inv shown post := by
  rw [hr]
  exact returns_pure h

theorem returns_lookup {y : String} {post : Option Value → Prop} (h : ∀ e, inv e → post (e.get? y)) :
    (lookup y).Returns inv shown post :=
  fun e he => ⟨e.get? y, e, [], rfl, h e he, he, fun _ hmem => absurd hmem List.not_mem_nil⟩

theorem returns_assign {y : String} {v : Value} (h : ∀ e, inv e → inv (e.bind y v)) :
    (assign y v).Returns inv shown fun _ => True :=
  fun e he => ⟨(), e.bind y v, [], rfl, trivial, h e he, fun _ hmem => absurd hmem List.not_mem_nil⟩

end Action
end FormLang
