import FormLang.Proofs.Tree.Evaluate
import FormLang.Proofs.Tree.Reached
import FormLang.Tree.Parse

/-!
# `FormLang.Proofs.Tree.Nesting` — how deep the value of a tree is nested

A tree that looks up nothing is worth a value that is nested no deeper than the tree. But what a variable
holds is put in the place where it is looked up, however deep this is inside lists, and can be bound
again. The level counts how many levels bindings have added to what is looked up. An action may raise it
from some `d` to some `d'`; the evaluation of a tree raises it by all levels of a program but one for
each node that binds a name which is looked up, and for nothing else. This is shown with one lemma for
each function of the evaluator, by induction on the tree.

## Contents
- `Value.depth`: the nesting of lists in a value.
- `Env.Within`: variables within a level.
- `Action.Climbs`: an action that raises the level; `Climbs.bind` and its companions.
- `Tree.rise`: how far nodes raise the level.
- `climbs_evaluateAll`, `climbs_bindVariable` and their companions; `rises_evaluate`.
-/

namespace FormLang

/-! ## Values -/

namespace Value

mutual

/-- How deep lists are nested in the value, the outermost list being the first level. -/
def depth : Value → Nat
  | .list vs => depthAll vs + 1
  | .number _ | .text _ | .flag _ | .absent => 0

/-- How deep lists are nested in the values. -/
def depthAll : List Value → Nat
  | [] => 0
  | v :: vs => max (depth v) (depthAll vs)

end

variable {v : Value} {vs : List Value} {k : Nat}

theorem depthAll_le_iff : depthAll vs ≤ k ↔ AllIn (fun v => v.depth ≤ k) vs := by
  unfold AllIn
  induction vs with
  | nil => simp [depthAll]
  | cons v vs ih => rw [depthAll, Nat.max_le, ih, List.forall_mem_cons]

/-- A list adds one level to its elements. -/
theorem depth_list_le_iff : (list vs).depth ≤ k + 1 ↔ AllIn (fun v => v.depth ≤ k) vs := by
  rw [depth, Nat.add_le_add_iff_right, depthAll_le_iff]

/-- What a command sees of a value is nested no deeper. -/
theorem depth_unwrap_le (v : Value) : v.unwrap.depth ≤ v.depth := by
  unfold unwrap
  split
  · simp [depth, depthAll]
  · exact Nat.le_refl _

/-- The elements of a list are nested less deep than the list. -/
theorem depth_elements (h : v.depth ≤ k + 1) : AllIn (fun w => w.depth ≤ k) v.elements := by
  cases v with
  | list vs => exact depth_list_le_iff.mp h
  | _ => exact allIn_nil.cons (Nat.zero_le k)

/-- Values that are nested no deeper than `k` levels above one level are so above a higher one. -/
theorem allIn_raise {d d' : Nat} (h : AllIn (fun v => v.depth ≤ d + k) vs) (hd : d ≤ d') :
    AllIn (fun v => v.depth ≤ d' + k) vs := by
  intro v hmem
  have hv : v.depth ≤ d + k := h v hmem
  show v.depth ≤ d' + k
  omega

/-- An operand of arithmetic is no list. -/
theorem depth_of_accepts {op : Operation} (h : op.accepts v = true) : v.depth = 0 := by
  cases v with
  | list vs => cases op <;> cases h
  | _ => rfl

end Value

/-! ## Variables -/

variable {reads : List String} {d d' d'' : Nat}

/-- Variables within the level `d`. One that is looked up holds a value with no more than `d` levels
inside the list that its elements form; any other may hold the levels of a whole program besides. -/
def Env.Within (reads : List String) (d : Nat) (e : Env) : Prop :=
  ∀ x v, e.get? x = some v → v.depth ≤ d + maxDepth ∧ (x ∈ reads → v.depth ≤ d + 1)

namespace Env

variable {e : Env}

theorem within_empty (reads : List String) : Env.empty.Within reads 0 := by
  intro x v h
  cases h

theorem Within.mono (he : e.Within reads d) (hd : d ≤ d') : e.Within reads d' := by
  intro x v h
  obtain ⟨hv, hread⟩ := he x v h
  constructor
  · omega
  · intro hx
    have := hread hx
    omega

theorem Within.bind (he : e.Within reads d) {x : String} {v : Value} (hv : v.depth ≤ d + maxDepth)
    (hx : x ∈ reads → v.depth ≤ d + 1) : (e.bind x v).Within reads d := by
  intro y w hw
  by_cases hy : y = x
  · rw [hy, get?_bind_self] at hw
    obtain rfl := Option.some.inj hw
    exact ⟨hv, fun hmem => hx (hy ▸ hmem)⟩
  · rw [get?_bind_of_ne e v hy] at hw
    exact he y w hw

end Env

/-! ## Actions -/

namespace Action

variable {α β : Type} {post post' : α → Prop} {x : Action α}

/-- Started from variables within the level `d`, the action ends with a result for which `post` holds.
The variables are then within the level `d'`, and no value that it logs is nested deeper than a value of
a program may be at this level. -/
def Climbs (reads : List String) (d d' : Nat) (post : α → Prop) (x : Action α) : Prop :=
  ∀ e, e.Within reads d → ∃ a e' events,
    x.run e = ⟨.ok a, e', events⟩ ∧ post a ∧ e'.Within reads d' ∧
      ∀ event ∈ events, event.Shows fun v => v.depth ≤ d' + maxDepth

/-- Values that may be shown at a level may be shown at a higher one. -/
theorem shows_mono {event : Event} (hd : d ≤ d') (h : event.Shows fun v => v.depth ≤ d + maxDepth) :
    event.Shows fun v => v.depth ≤ d' + maxDepth := by
  cases event with
  | log v =>
      have hv : v.depth ≤ d + maxDepth := h
      show v.depth ≤ d' + maxDepth
      omega
  | error _ => trivial

theorem Climbs.mono (hx : x.Climbs reads d d' post) (hd : d' ≤ d'') (hpost : ∀ a, post a → post' a) :
    x.Climbs reads d d'' post' := by
  intro e he
  obtain ⟨a, e', events, hrun, ha, he', hevents⟩ := hx e he
  exact ⟨a, e', events, hrun, hpost a ha, he'.mono hd, fun event hmem =>
    shows_mono hd (hevents event hmem)⟩

/-- **Two actions one after the other climb** as far as the second does from where the first has got. -/
theorem Climbs.bind {f : α → Action β} {post' : β → Prop} (hx : x.Climbs reads d d' post)
    (hd : d' ≤ d'') (hf : ∀ a, post a → (f a).Climbs reads d' d'' post') :
    (x >>= f).Climbs reads d d'' post' := by
  intro e he
  obtain ⟨a, e', events, hrun, ha, he', hevents⟩ := hx e he
  obtain ⟨b, e'', events', hrun', hb, he'', hevents'⟩ := hf a ha e' he'
  refine ⟨b, e'', events ++ events', ?_, hb, he'', ?_⟩
  · rw [bind_run_ok hrun, hrun']
  · intro event hmem
    rcases List.mem_append.mp hmem with hmem | hmem
    · -- what may be shown halfway may be shown at the end
      exact shows_mono hd (hevents event hmem)
    · exact hevents' event hmem

theorem Climbs.map {f : α → β} {post' : β → Prop} (hx : x.Climbs reads d d' post)
    (hf : ∀ a, post a → post' (f a)) : (f <$> x).Climbs reads d d' post' := by
  intro e he
  obtain ⟨a, e', events, hrun, ha, he', hevents⟩ := hx e he
  refine ⟨f a, e', events, ?_, hf a ha, he', hevents⟩
  rw [map_run, hrun]
  rfl

theorem climbs_pure {a : α} (h : post a) : (pure a : Action α).Climbs reads d d post :=
  returns_pure h

theorem climbs_complain (diagnostic : Diagnostic) :
    (complain diagnostic).Climbs reads d d fun _ => True :=
  returns_complain trivial

theorem climbs_log {v : Value} (h : v.depth ≤ d + maxDepth) :
    (log v).Climbs reads d d fun _ => True :=
  returns_log h

/-- A binding climbs as far as it takes for what is bound. -/
theorem climbs_assign {y : String} {v : Value} (hd : d ≤ d') (hv : v.depth ≤ d' + maxDepth)
    (hy : y ∈ reads → v.depth ≤ d' + 1) : (assign y v).Climbs reads d d' fun _ => True :=
  fun e he => ⟨(), e.bind y v, [], rfl, trivial, (he.mono hd).bind hv hy,
    fun _ hmem => absurd hmem List.not_mem_nil⟩

theorem Climbs.raise {x : Action (List Value)} {k : Nat}
    (hx : x.Climbs reads d d' (AllIn fun v => v.depth ≤ d' + k)) (hd : d' ≤ d'') :
    x.Climbs reads d d'' (AllIn fun v => v.depth ≤ d'' + k) :=
  hx.mono hd fun _ hvs => Value.allIn_raise hvs hd

end Action

/-! ## Trees -/

namespace Tree

open FormLang.Action

/-- The level to which nodes raise the level `d`: each that binds a variable which is looked up can bind
it to what it was, with all the levels of a program but one around it. -/
def rise (reads : List String) (d : Nat) (nodes : List Tree) : Nat :=
  d + (maxDepth - 1) * (nodes.filterMap setName?).countP (· ∈ reads)

variable {t u : Tree} {ts us : List Tree} {k : Nat}

theorem le_rise (reads : List String) (d : Nat) (us : List Tree) : d ≤ rise reads d us :=
  Nat.le_add_right _ _

theorem rise_append (reads : List String) (d : Nat) (us more : List Tree) :
    rise reads d (us ++ more) = rise reads (rise reads d us) more := by
  unfold rise
  rw [List.filterMap_append, List.countP_append, Nat.mul_add, Nat.add_assoc]

theorem rise_le_cons (reads : List String) (d : Nat) (u : Tree) (us : List Tree) :
    rise reads d us ≤ rise reads d (u :: us) := by
  unfold rise
  have hsublist : (us.filterMap setName?).Sublist ((u :: us).filterMap setName?) :=
    (List.sublist_cons_self u us).filterMap setName?
  exact Nat.add_le_add_left (Nat.mul_le_mul_left _ hsublist.countP_le) d

/-- A node that binds a variable which is looked up adds its levels. -/
theorem rise_cons_of_mem {y : String} (hu : u.setName? = some y) (hy : y ∈ reads) :
    rise reads d (u :: us) = rise reads d us + (maxDepth - 1) := by
  unfold rise
  rw [List.filterMap_cons_some hu, List.countP_cons_of_pos (by simpa using hy), Nat.mul_add_one,
    Nat.add_assoc]

/-- The evaluation of the tree climbs as far as its nodes say, to a value that is nested no deeper than
`k` levels above. -/
abbrev Rises (reads : List String) (k : Nat) (t : Tree) : Prop :=
  ∀ d, t.evaluate.Climbs reads d (rise reads d t.reached) fun v =>
    v.depth ≤ rise reads d t.reached + k

/-! ### Variables -/

theorem climbs_readVariable (hts : ∀ t ∈ ts, t.Leaves IsOrdinary)
    (hname : ∀ slot rest y, ts = slot :: rest → slot.readName? = .ok (some y) → y ∈ reads)
    (d k : Nat) :
    (readVariable ts).Climbs reads d d (AllIn fun v => v.depth ≤ d + k) := by
  cases ts with
  | nil =>
      exact (climbs_complain .tooFewParameters).bind (Nat.le_refl d) fun _ _ => climbs_pure allIn_nil
  | cons slot rest =>
      obtain ⟨name, hslot⟩ := exists_readName? (hts slot List.mem_cons_self)
      have hread : (ofExcept slot.readName?).Climbs reads d d fun found => found = name :=
        returns_ofExcept hslot rfl
      rw [readVariable]
      apply hread.bind (Nat.le_refl d)
      intro found hfound
      cases found with
      | none => exact climbs_pure allIn_nil
      | some y =>
          have hlookup : (lookup y).Climbs reads d d fun bound =>
              ∀ v, bound = some v → v.depth ≤ d + 1 :=
            returns_lookup fun e he v hv => (he y v hv).2 (hname slot rest y rfl (hfound ▸ hslot))
          apply hlookup.bind (Nat.le_refl d)
          intro bound hbound
          cases bound with
          | none => exact climbs_pure allIn_nil
          | some v =>
              have hv : v.depth ≤ d + k + 1 := by
                have := hbound v rfl
                omega
              exact climbs_pure (Value.depth_elements hv)

theorem depth_packed_le {vs : List Value} (h : AllIn (fun v => v.depth ≤ k) vs) :
    (packed vs).depth ≤ k + 1 := by
  unfold packed
  split
  · exact Nat.le_succ_of_le (h _ List.mem_cons_self)
  · exact Value.depth_list_le_iff.mpr h

/-! ### Operands -/

theorem climbs_evaluateAll (h : ∀ t ∈ ts, t.Rises reads k) (d : Nat) :
    (evaluateAll ts).Climbs reads d (rise reads d (reachedAll ts))
      (AllIn fun v => v.depth ≤ rise reads d (reachedAll ts) + k) := by
  induction ts generalizing d with
  | nil => exact climbs_pure allIn_nil
  | cons t ts ih =>
      rw [evaluateAll, reachedAll, rise_append]
      have hle := le_rise reads (rise reads d t.reached) (reachedAll ts)
      apply (h t List.mem_cons_self d).bind hle
      intro v hv
      apply (ih (fun u hu => h u (List.mem_cons_of_mem t hu)) _).map
      intro vs hvs
      apply hvs.cons
      omega

theorem climbs_mapOperands {f : Value → Action Value}
    (hf : ∀ d v, v.depth ≤ d + maxDepth → (f v).Climbs reads d d fun r => r = v)
    (hk : k ≤ maxDepth) (h : ∀ t ∈ ts, t.Rises reads k) (d : Nat) :
    (mapOperands f ts).Climbs reads d (rise reads d (reachedAll ts))
      (AllIn fun v => v.depth ≤ rise reads d (reachedAll ts) + k) := by
  induction ts generalizing d with
  | nil => exact climbs_pure allIn_nil
  | cons t ts ih =>
      rw [mapOperands, reachedAll, rise_append]
      have hle := le_rise reads (rise reads d t.reached) (reachedAll ts)
      apply (h t List.mem_cons_self d).bind hle
      intro v hv
      have hunwrap := Value.depth_unwrap_le v
      apply (hf _ v.unwrap (by omega)).bind hle
      rintro _ rfl
      apply (ih (fun u hu => h u (List.mem_cons_of_mem t hu)) _).map
      intro vs hvs
      apply hvs.cons
      omega

theorem climbs_printOperand (d : Nat) (v : Value) (hv : v.depth ≤ d + maxDepth) :
    (printOperand v).Climbs reads d d fun r => r = v :=
  (climbs_log hv).bind (Nat.le_refl d) fun _ _ => climbs_pure rfl

/-- What arithmetic has combined so far is no list. -/
theorem climbs_combineOperand (op : Operation) {soFar : Option Value}
    (hs : AllIn (fun v => v.depth = 0) soFar.toList) (v : Value) (d : Nat) :
    (combineOperand op soFar v).Climbs reads d d fun s => AllIn (fun v => v.depth = 0) s.toList := by
  rw [combineOperand]
  cases hcombine : op.combine soFar v with
  | ok r =>
      have hr : r.depth = 0 := Value.depth_of_accepts (Operation.accepts_combine hcombine)
      exact climbs_pure (allIn_nil.cons hr)
  | error diagnostic =>
      exact (climbs_complain diagnostic).bind (Nat.le_refl d) fun _ _ => climbs_pure hs

theorem climbs_foldOperands (op : Operation) {s : Option Value}
    (hs : AllIn (fun v => v.depth = 0) s.toList) (h : ∀ t ∈ ts, t.Rises reads k) (d : Nat) :
    (foldOperands (combineOperand op) s ts).Climbs reads d (rise reads d (reachedAll ts))
      fun s => AllIn (fun v => v.depth = 0) s.toList := by
  induction ts generalizing s d with
  | nil => exact climbs_pure hs
  | cons t ts ih =>
      rw [foldOperands, reachedAll, rise_append]
      have hle := le_rise reads (rise reads d t.reached) (reachedAll ts)
      apply (h t List.mem_cons_self d).bind hle
      intro v _
      apply (climbs_combineOperand op hs v.unwrap _).bind hle
      intro s' hs'
      exact ih hs' (fun u hu => h u (List.mem_cons_of_mem t hu)) _

theorem climbs_bindVariable (hk : k < maxDepth)
    (h : ∀ slot t rest y, ts = slot :: t :: rest → slot.boundName? = some y →
      ∀ u ∈ t :: rest, u.Rises reads k)
    (hd : rise reads d (reachedBound ts) ≤ d')
    (hraise : ∀ slot t rest y, ts = slot :: t :: rest → slot.boundName? = some y → y ∈ reads →
      rise reads d (reachedBound ts) + (maxDepth - 1) ≤ d') :
    (bindVariable ts).Climbs reads d d' (AllIn fun v => v.depth ≤ d' + k) := by
  have hnothing : ∀ diagnostic, (complain diagnostic >>= fun _ => pure []).Climbs reads d d'
      (AllIn fun v => v.depth ≤ d' + k) := by
    intro diagnostic
    have hstays : d ≤ d' := Nat.le_trans (le_rise reads d _) hd
    exact (climbs_complain diagnostic).bind hstays fun _ _ => (climbs_pure allIn_nil).raise hstays
  match ts with
  | [] => exact hnothing .tooFewParameters
  | [_] => exact hnothing .tooFewParameters
  | slot :: t :: rest =>
      rw [bindVariable]
      cases hslot : slot.boundName? with
      | none => exact hnothing .invalidName
      | some y =>
          have hargs := h slot t rest y rfl hslot
          have hadds := hraise slot t rest y rfl hslot
          simp only [reachedBound, hslot, rise_append] at hd hadds
          have hle := le_rise reads (rise reads d t.reached) (reachedAll rest)
          apply (hargs t List.mem_cons_self d).bind (Nat.le_trans hle hd)
          intro v hv
          have hrest : ∀ u ∈ rest, u.Rises reads k := fun u hu => hargs u (List.mem_cons_of_mem t hu)
          apply (climbs_mapOperands (fun _ _ _ => climbs_pure rfl) (Nat.le_of_lt hk) hrest _).bind hd
          intro vs hvs
          have hunwrap := Value.depth_unwrap_le v
          have hoperands := hvs.cons (v := v.unwrap) (by omega)
          have hpacked := depth_packed_le hoperands
          have hassign : (assign y (packed (v.unwrap :: vs))).Climbs reads
              (rise reads (rise reads d t.reached) (reachedAll rest)) d' fun _ => True := by
            apply climbs_assign hd
            · omega
            · -- what is packed has the level of the operands and those of the program around them
              intro hy
              have := hadds hy
              omega
          apply hassign.bind (Nat.le_refl d')
          intro _ _
          exact climbs_pure (Value.allIn_raise hoperands hd)

/-! ### All trees -/

/-- A node climbs as far as its arguments do, and further if it binds a variable that is looked up. -/
theorem climbs_evaluateForm (hts : ∀ t ∈ ts, t.Leaves IsOrdinary)
    (hread : ∀ y, (list ts).getName? = some y → y ∈ reads) (hk : k < maxDepth)
    (h : ∀ t ∈ visited ts, t.Rises reads k) (d : Nat) :
    (evaluateForm ts).Climbs reads d (rise reads d (list ts).reached)
      (AllIn fun v => v.depth ≤ rise reads d (list ts).reached + k) := by
  rw [reached]
  have hcons := rise_le_cons reads d (list ts) (reachedForm ts)
  have hle := le_rise reads d (list ts :: reachedForm ts)
  cases ts using formCases with
  | nil => exact (climbs_pure allIn_nil).raise hle
  | print s args hs =>
      rw [visited_print hs] at h
      rw [evaluateForm_print hs]
      rw [reachedForm_print hs] at hcons ⊢
      exact (climbs_mapOperands climbs_printOperand (Nat.le_of_lt hk) h d).raise hcons
  | arithmetic op s args hs =>
      rw [visited_arithmetic hs] at h
      rw [evaluateForm_arithmetic hs]
      rw [reachedForm_arithmetic hs] at hcons ⊢
      have hfold := climbs_foldOperands (s := none) op allIn_nil h d
      apply (hfold.map _).raise hcons
      intro s hs v hv
      have hscalar : v.depth = 0 := hs v hv
      show v.depth ≤ _
      omega
  | set s args hs =>
      rw [evaluateForm_set hs]
      rw [reachedForm_set hs] at hcons ⊢
      apply climbs_bindVariable hk
      · rintro slot t rest y rfl hy
        rwa [visited_set_of_boundName? hs hy] at h
      · exact hcons
      · rintro slot t rest y rfl hy hmem
        exact Nat.le_of_eq (rise_cons_of_mem (setName?_set hs hy) hmem).symm
  | get s args hs =>
      rw [evaluateForm_get hs]
      apply (climbs_readVariable _ _ d k).raise hle
      · exact fun t ht => hts t (List.mem_cons_of_mem _ ht)
      · rintro slot rest y rfl hy
        exact hread y (getName?_get hs hy)
  | unknown s args hs =>
      rw [evaluateForm_unknown hs]
      apply (climbs_complain (.unknownCommand s)).bind hle
      intro _ _
      exact (climbs_pure (allIn_nil.cons (Nat.zero_le _))).raise hle
  | data t ts hname =>
      rw [visited_of_not_name hname] at h
      rw [evaluateForm_of_not_name hname]
      rw [reachedForm_of_not_name hname] at hcons ⊢
      exact (climbs_evaluateAll h d).raise hcons

/-- **The evaluation of a tree climbs as far as the nodes say that it comes to**, and its value is nested
above that no deeper than the tree. -/
theorem rises_evaluate (ht : t.Leaves IsOrdinary)
    (hread : ∀ u ∈ t.reached, ∀ y, u.getName? = some y → y ∈ reads) (hdepth : t.depth ≤ k)
    (hk : k ≤ maxDepth) : t.Rises reads k := by
  intro d
  induction t generalizing k d with
  | number n => exact climbs_pure (Nat.zero_le _)
  | text s => exact climbs_pure (Nat.zero_le _)
  | name s => exact climbs_pure (Nat.zero_le _)
  | error message =>
      apply (climbs_complain (.malformed message)).bind (Nat.le_refl d)
      intro _ _
      exact climbs_pure (Nat.zero_le _)
  | foreign v => exact absurd ht id
  | list ts ih =>
      rw [leaves_list] at ht
      -- the list is a level of its own, so that its elements are nested one level less
      cases k with
      | zero => exact absurd hdepth (Nat.not_succ_le_zero _)
      | succ k =>
          have helements : ∀ t ∈ visited ts, t.Rises reads k := by
            intro t hvisited
            have hmem := mem_of_mem_visited hvisited
            have hinside : ∀ u ∈ t.reached, ∀ y, u.getName? = some y → y ∈ reads :=
              fun u hu => hread u (mem_reached_list hvisited hu)
            exact ih t hmem (ht t hmem) hinside (depth_list_le_iff.mp hdepth t hmem) (Nat.le_of_lt hk)
          rw [evaluate]
          apply (climbs_evaluateForm ht (hread _ List.mem_cons_self) hk helements d).map
          intro vs hvs
          exact Value.depth_list_le_iff.mpr hvs

end Tree
end FormLang
