import FormLang.Diagnostic
import FormLang.Env
import FormLang.Failure

/-!
# `FormLang.Action` — computations on variables that report as they go

An action starts from the variables of a session, may bind some, and reports events in order. It ends
with a result or with a failure; in either case what it did before stays done.

## Contents
- `Event`: something logged, or a diagnostic.
- `Outcome`: a result or failure, the variables afterwards, and the events.
- `Action`: the monad, with `report`, `log`, `complain`, `fail`, `lookup`, `assign`.
- `bind_run` and its companions: one equation for each of these.
-/

namespace FormLang

/-- What an action reports: a value that the program logs, or a diagnostic. -/
inductive Event where
  | log (v : Value)
  | error (d : Diagnostic)
deriving DecidableEq

/-- How an action ended: its result or failure, the variables then, and the events in order. -/
@[ext] structure Outcome (α : Type) where
  result : Except Failure α
  env : Env
  events : List Event

/-- A computation that starts from variables and ends in an outcome. -/
def Action (α : Type) : Type := Env → Outcome α

namespace Action

variable {α β : Type}

/-- Runs the action from the given variables. -/
def run (x : Action α) (e : Env) : Outcome α := x e

/-- Gives the result and does nothing. -/
def ret (a : α) : Action α := fun e => ⟨.ok a, e, []⟩

/-- Runs one action and then the next, which may depend on the result. A failure of the first is the
failure of both, and the next is not run. -/
def andThen (x : Action α) (f : α → Action β) : Action β := fun e =>
  match x e with
  | ⟨.ok a, e', events⟩ =>
      let next := f a e'
      ⟨next.result, next.env, events ++ next.events⟩
  | ⟨.error failure, e', events⟩ => ⟨.error failure, e', events⟩

/-- Runs the action and applies a function to its result. -/
def mapResult (f : α → β) (x : Action α) : Action β := fun e =>
  let o := x e
  ⟨o.result.map f, o.env, o.events⟩

instance : Monad Action where
  pure := ret
  bind := andThen
  map := mapResult

/-- Reports an event. -/
def report (event : Event) : Action Unit := fun e => ⟨.ok (), e, [event]⟩

/-- Logs a value. -/
def log (v : Value) : Action Unit := report (.log v)

/-- Reports a diagnostic. -/
def complain (d : Diagnostic) : Action Unit := report (.error d)

/-- Reports diagnostics in order. -/
def complainAll (ds : List Diagnostic) : Action Unit := fun e => ⟨.ok (), e, ds.map .error⟩

/-- Ends with a failure. -/
def fail (failure : Failure) : Action α := fun e => ⟨.error failure, e, []⟩

/-- Goes on with a result or ends with a failure. -/
def ofExcept (r : Except Failure α) : Action α := fun e => ⟨r, e, []⟩

/-- The value of a variable, if it is bound. -/
def lookup (x : String) : Action (Option Value) := fun e => ⟨.ok (e.get? x), e, []⟩

/-- Binds a variable. -/
def assign (x : String) (v : Value) : Action Unit := fun e => ⟨.ok (), e.bind x v, []⟩

/-! ## What each of them does -/

@[simp] theorem pure_run (a : α) (e : Env) : (pure a : Action α).run e = ⟨.ok a, e, []⟩ := rfl

theorem bind_run (x : Action α) (f : α → Action β) (e : Env) :
    (x >>= f).run e = match x.run e with
      | ⟨.ok a, e', events⟩ =>
          ⟨((f a).run e').result, ((f a).run e').env, events ++ ((f a).run e').events⟩
      | ⟨.error failure, e', events⟩ => ⟨.error failure, e', events⟩ := rfl

/-- After an action that ends with a result the next one goes on from where it left off. -/
theorem bind_run_ok {x : Action α} {f : α → Action β} {e e' : Env} {a : α} {events : List Event}
    (h : x.run e = ⟨.ok a, e', events⟩) :
    (x >>= f).run e =
      ⟨((f a).run e').result, ((f a).run e').env, events ++ ((f a).run e').events⟩ := by
  rw [bind_run, h]

/-- After a failure nothing happens. -/
theorem bind_run_error {x : Action α} {f : α → Action β} {e e' : Env} {failure : Failure}
    {events : List Event} (h : x.run e = ⟨.error failure, e', events⟩) :
    (x >>= f).run e = ⟨.error failure, e', events⟩ := by
  rw [bind_run, h]

@[simp] theorem map_run (f : α → β) (x : Action α) (e : Env) :
    (f <$> x).run e = ⟨(x.run e).result.map f, (x.run e).env, (x.run e).events⟩ := rfl

@[simp] theorem report_run (event : Event) (e : Env) :
    (report event).run e = ⟨.ok (), e, [event]⟩ := rfl

@[simp] theorem log_run (v : Value) (e : Env) : (log v).run e = ⟨.ok (), e, [.log v]⟩ := rfl

@[simp] theorem complain_run (d : Diagnostic) (e : Env) :
    (complain d).run e = ⟨.ok (), e, [.error d]⟩ := rfl

@[simp] theorem complainAll_run (ds : List Diagnostic) (e : Env) :
    (complainAll ds).run e = ⟨.ok (), e, ds.map .error⟩ := rfl

@[simp] theorem fail_run (failure : Failure) (e : Env) :
    (fail failure : Action α).run e = ⟨.error failure, e, []⟩ := rfl

@[simp] theorem ofExcept_run (r : Except Failure α) (e : Env) :
    (ofExcept r).run e = ⟨r, e, []⟩ := rfl

@[simp] theorem lookup_run (x : String) (e : Env) : (lookup x).run e = ⟨.ok (e.get? x), e, []⟩ := rfl

@[simp] theorem assign_run (x : String) (v : Value) (e : Env) :
    (assign x v).run e = ⟨.ok (), e.bind x v, []⟩ := rfl

/-- A function applied to the result is an action with nothing to report put after it. -/
theorem andThen_ret (f : α → β) (x : Action α) : andThen x (fun a => ret (f a)) = mapResult f x := by
  funext e
  simp only [andThen, ret, mapResult]
  rcases x e with ⟨_ | _, _, _⟩ <;> simp [Except.map]

instance : LawfulMonad Action := LawfulMonad.mk' _
  (fun x => by
    funext e
    change mapResult id x e = x e
    simp only [mapResult]
    rcases x e with ⟨_ | _, _, _⟩ <;> rfl)
  (fun _ _ => rfl)
  (fun x f g => by
    funext e
    change andThen (andThen x f) g e = andThen x (fun a => andThen (f a) g) e
    simp only [andThen]
    rcases x e with ⟨_ | a, e', _⟩
    · rfl
    · dsimp only
      rcases f a e' with ⟨_ | _, _, _⟩ <;> simp)
  (fun _ _ => rfl)
  (fun _ _ => rfl)
  (fun _ _ => rfl)
  andThen_ret
  (fun _ _ => rfl)

end Action

end FormLang
