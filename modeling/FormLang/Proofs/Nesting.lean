import FormLang.Proofs.Session
import FormLang.Proofs.Tree.Nesting
import FormLang.Proofs.Tree.Variable
import FormLang.Proofs.Tree.Reread

/-!
# `FormLang.Proofs.Nesting` — how deep values are nested in a session

The reader nests lists no deeper than `maxDepth`, and as long as nothing that is bound is looked up, values
are nested no deeper either. Every binding of a name that is looked up somewhere can add all the levels of
a program but one. Nothing else can: values are nested no deeper than `maxDepth` and so many levels for
each such binding. A text that puts what `x` was deep inside a list and binds `x` to it comes up to this
each time that it is run, so that there is no bound for all sessions.

## Contents
- `climbs_run`: a run raises the level of a session as far as its tree does.
- `Session.feedbacks`: how often a session binds a name that it looks up.
- `run_nestsWithin`: how deep values are nested at most.
- `Tree.buried`, `Value.buried`: trees and values inside many lists; `Tree.buriedText`.
- `depth_run_tower`: values that are nested so deep; `not_nestsWithin_maxDepth`.
-/

namespace FormLang

variable {reads : List String} {d : Nat}

/-- A program is nested no deeper than the reader allows. -/
theorem Tree.depth_ofSource_le (src : String) : (Tree.ofSource src).tree.depth ≤ maxDepth := by
  rcases ofSource_written src with hunterminated | ⟨us, htree, hus⟩
  · rw [hunterminated]
    exact Nat.zero_le _
  · rw [htree]
    exact depth_list_add_le (by decide : 0 < maxDepth) fun u hu => (hus u hu).2

/-! ## Sessions -/

namespace Session

open FormLang.Action

/-- The nodes that a session comes to. -/
def reached (srcs : List String) : List Tree :=
  srcs.flatMap fun src => (Tree.ofSource src).tree.reached

/-- The names that a session looks up. -/
def lookedUp (srcs : List String) : List String := (reached srcs).filterMap Tree.getName?

/-- How often a session binds a name that it looks up somewhere. -/
def feedbacks (srcs : List String) : Nat :=
  ((reached srcs).filterMap Tree.setName?).countP (· ∈ lookedUp srcs)

/-- The outcome has a result, and no value that is returned, bound or logged is nested deeper than
`n`. -/
structure NestsWithin (n : Nat) (o : Outcome Value) : Prop where
  result : ∃ v, o.result = .ok v ∧ v.depth ≤ n
  env : ∀ x v, o.env.get? x = some v → v.depth ≤ n
  events : ∀ v, .log v ∈ o.events → v.depth ≤ n

theorem climbs_complainAll (ds : List Diagnostic) :
    (complainAll ds).Climbs reads d d fun _ => True := by
  intro e he
  refine ⟨(), e, ds.map .error, rfl, trivial, he, ?_⟩
  intro event hmem
  obtain ⟨diagnostic, -, rfl⟩ := List.mem_map.mp hmem
  trivial

/-- The dump of tokens is a list of texts. -/
theorem climbs_logTokens (src : String) :
    (logTokens (scan src).tokens).Climbs reads d d fun _ => True := by
  obtain ⟨dumps, hdumps⟩ := exists_mapM fun t ht => Token.exists_dump (isWritten_scan src t ht)
  have hread : (ofExcept ((scan src).tokens.mapM Token.dump)).Climbs reads d d fun _ => True :=
    returns_ofExcept hdumps trivial
  apply hread.bind (Nat.le_refl d)
  intro dumps _
  apply climbs_log
  have htexts : AllIn (fun v => v.depth ≤ 0) (dumps.map Value.text) := by
    intro v hv
    obtain ⟨s, -, rfl⟩ := List.mem_map.mp hv
    exact Nat.le_refl 0
  calc (Value.list (dumps.map .text)).depth ≤ 0 + 1 := Value.depth_list_le_iff.mpr htexts
    _ ≤ maxDepth := by decide
    _ ≤ d + maxDepth := Nat.le_add_left _ _

/-- The dump of a tree is a text. -/
theorem climbs_logTree (src : String) :
    (logTree (Tree.ofSource src).tree).Climbs reads d d fun _ => True := by
  obtain ⟨text, htext⟩ := Tree.exists_render (Tree.ofSource_ordinary src)
  have hrender : (ofExcept (Tree.ofSource src).tree.render).Climbs reads d d fun _ => True :=
    returns_ofExcept htext trivial
  apply hrender.bind (Nat.le_refl d)
  intro text _
  exact climbs_log (Nat.zero_le _)

/-- A stage that can be left out. -/
theorem climbs_optional {x : Action Unit} (hx : x.Climbs reads d d fun _ => True) (b : Bool) :
    (if b then x else pure ()).Climbs reads d d fun _ => True := by
  cases b with
  | true => exact hx
  | false => exact climbs_pure trivial

/-- **A run climbs as far as its tree.** -/
theorem climbs_run (options : Options) {src : String}
    (hread : ∀ u ∈ (Tree.ofSource src).tree.reached, ∀ y, u.getName? = some y → y ∈ reads) (d : Nat) :
    (run options src).Climbs reads d (Tree.rise reads d (Tree.ofSource src).tree.reached) fun v =>
      v.depth ≤ Tree.rise reads d (Tree.ofSource src).tree.reached + maxDepth := by
  have hle := Tree.le_rise reads d (Tree.ofSource src).tree.reached
  rw [run_eq]
  apply (climbs_complainAll _).bind hle
  intro _ _
  apply (climbs_optional (climbs_logTokens src) _).bind hle
  intro _ _
  apply (climbs_complainAll _).bind hle
  intro _ _
  apply (climbs_optional (climbs_logTree src) _).bind hle
  intro _ _
  exact Tree.rises_evaluate (Tree.ofSource_ordinary src) hread (Tree.depth_ofSource_le src)
    (Nat.le_refl _) d

theorem reached_cons (src : String) (srcs : List String) :
    reached (src :: srcs) = (Tree.ofSource src).tree.reached ++ reached srcs :=
  List.flatMap_cons

theorem reached_append (srcs more : List String) :
    reached (srcs ++ more) = reached srcs ++ reached more :=
  List.flatMap_append

/-- **A session climbs as far as its trees**, one after the other. -/
theorem within_after (options : Options) {srcs : List String}
    (hread : ∀ u ∈ reached srcs, ∀ y, u.getName? = some y → y ∈ reads) {e : Env}
    (he : e.Within reads d) :
    (after options e srcs).Within reads (Tree.rise reads d (reached srcs)) := by
  induction srcs generalizing e d with
  | nil => exact he
  | cons src srcs ih =>
      rw [reached_cons] at hread ⊢
      have hfirst : ∀ u ∈ (Tree.ofSource src).tree.reached, ∀ y, u.getName? = some y → y ∈ reads :=
        fun u hu => hread u (List.mem_append_left _ hu)
      obtain ⟨_, e', events, hrun, -, he', -⟩ := climbs_run options hfirst d e he
      rw [after, hrun, Tree.rise_append]
      exact ih (fun u hu => hread u (List.mem_append_right _ hu)) he'

/-- The level of a session that starts with no variables. -/
theorem rise_eq_feedbacks (srcs : List String) :
    Tree.rise (lookedUp srcs) 0 (reached srcs) = (maxDepth - 1) * feedbacks srcs :=
  Nat.zero_add _

/-- **Values are nested no deeper than a program may be, and all levels of a program but one more for
each binding of a name that is looked up.** In a sequence of program texts, run one after the other from
no variables, this holds for all values that a text returns, logs or leaves in variables. In particular
values are nested no deeper than programs where no name that is bound is looked up. -/
theorem run_nestsWithin (options : Options) (srcs : List String) (src : String) :
    NestsWithin (maxDepth + (maxDepth - 1) * feedbacks (srcs ++ [src]))
      ((run options src).run (after options Env.empty srcs)) := by
  have hnames : ∀ u ∈ reached (srcs ++ [src]), ∀ y, u.getName? = some y →
      y ∈ lookedUp (srcs ++ [src]) :=
    fun u hu y hy => List.mem_filterMap.mpr ⟨u, hu, hy⟩
  rw [Nat.add_comm, ← rise_eq_feedbacks]
  generalize lookedUp (srcs ++ [src]) = reads at hnames ⊢
  have hlast : reached [src] = (Tree.ofSource src).tree.reached := List.flatMap_singleton _ src
  rw [reached_append, hlast] at hnames ⊢
  rw [Tree.rise_append]
  -- the last text goes on from the level that the others have reached
  have hbefore := within_after options (fun u hu => hnames u (List.mem_append_left _ hu))
    (Env.within_empty reads)
  obtain ⟨v, e, events, hrun, hv, he, hevents⟩ :=
    climbs_run options (fun u hu => hnames u (List.mem_append_right _ hu)) _ _ hbefore
  rw [hrun]
  exact ⟨⟨v, rfl, hv⟩, fun x w hw => (he x w hw).1, fun w hw => hevents (.log w) hw⟩

/-- What is bound to `y` is not looked up. -/
example : feedbacks ["(set x 0 ((get x)))", "(set y (get x))", "(print (get \"x\"))"] = 1 := by
  decide +kernel

end Session

/-! ## Values as deep as they may be -/

namespace Value

/-- The value inside `n` lists, behind a zero in each. -/
def buried : Nat → Value → Value
  | 0, v => v
  | n + 1, v => .list [.int 0, buried n v]

theorem depth_buried (n : Nat) (v : Value) : (buried n v).depth = v.depth + n := by
  induction n with
  | zero => rfl
  | succ n ih => simp [buried, depth, depthAll, ih, Nat.add_assoc]

theorem buried_add (m n : Nat) (v : Value) : buried m (buried n v) = buried (m + n) v := by
  induction m with
  | zero => rw [buried, Nat.zero_add]
  | succ m ih => rw [buried, ih, Nat.succ_add, buried]

end Value

namespace Tree

/-- The tree inside `n` lists, behind a zero in each. -/
def buried : Nat → Tree → Tree
  | 0, t => t
  | n + 1, t => .list [.number 0, buried n t]

/-- A tree that looks up `x`. -/
def getX : Tree := .list [.name "get", .name "x"]

/-- A tree that binds `x` to a zero and what the given tree is worth. -/
def setX (t : Tree) : Tree := .list [.name "set", .name "x", .number 0, t]

variable {t : Tree} {n : Nat}

/-! ### Their texts -/

/-- The text with `x` looked up inside `n` lists, behind a zero in each. -/
def buriedText : Nat → String
  | 0 => "(get x)"
  | n + 1 => "(0 " ++ buriedText n ++ ")"

theorem source_buried (n : Nat) : (buried n getX).source = buriedText n := by
  induction n with
  | zero => rfl
  | succ n ih =>
      rw [buriedText, ← ih]
      apply String.toList_injective
      simp [source, buried, pieces, piecesAll, Piece.chars]

theorem source_setX (t : Tree) : t.setX.source = "(set x 0 " ++ t.source ++ ")" := by
  apply String.toList_injective
  simp [source, setX, pieces, piecesAll, Piece.chars]

theorem depth_buried (n : Nat) : (buried n getX).depth = n + 1 := by
  induction n with
  | zero => rfl
  | succ n ih => simp [buried, depth, depthAll, ih]

theorem isWritten_zero : (number 0).IsWritten := ⟨Int.le_refl 0, Numeral.limit_pos⟩

theorem isWritten_x : (name "x").IsWritten := ⟨rfl, List.forall_mem_nil _⟩

theorem written_getX : getX.Leaves IsWritten := by
  have hget : (name "get").IsWritten := by
    show 'g'.isAlpha ∧ ∀ d ∈ ['e', 't'], d.isAlphanum
    exact ⟨rfl, List.forall_mem_cons.mpr ⟨rfl, List.forall_mem_singleton.mpr rfl⟩⟩
  exact ⟨hget, isWritten_x, trivial⟩

theorem written_buried (n : Nat) : (buried n getX).Leaves IsWritten := by
  induction n with
  | zero => exact written_getX
  | succ n ih => exact ⟨isWritten_zero, ih, trivial⟩

theorem ofSource_buried (hn : n < maxDepth) :
    Tree.ofSource (buried n getX).source = ⟨buried n getX, []⟩ := by
  have hdepth : (buried n getX).depth ≤ maxDepth := by
    rw [depth_buried]
    exact hn
  cases n with
  | zero => exact ofSource_source (written_buried 0) hdepth
  | succ n => exact ofSource_source (written_buried (n + 1)) hdepth

theorem ofSource_setX (ht : t.Leaves IsWritten) (hdepth : t.depth < maxDepth) :
    Tree.ofSource t.setX.source = ⟨t.setX, []⟩ := by
  apply ofSource_source
  · have hset : (name "set").IsWritten := by
      show 's'.isAlpha ∧ ∀ d ∈ ['e', 't'], d.isAlphanum
      exact ⟨rfl, List.forall_mem_cons.mpr ⟨rfl, List.forall_mem_singleton.mpr rfl⟩⟩
    exact ⟨hset, isWritten_x, isWritten_zero, ht, trivial⟩
  · have helements : ∀ u ∈ [name "set", name "x", number 0, t], u.depth + 1 ≤ maxDepth := by
      simp [depth]
      omega
    exact depth_list_add_le (by decide : 0 < maxDepth) helements

/-! ### Their nodes -/

theorem reached_buried (n : Nat) :
    (buried (n + 1) getX).reached = buried (n + 1) getX :: .number 0 :: (buried n getX).reached := by
  simp [buried, reached, reachedForm, reachedAll]

theorem boundNames_buried (n : Nat) : (buried n getX).boundNames = [] := by
  induction n with
  | zero => rfl
  | succ n ih =>
      rw [boundNames, reached_buried]
      exact ih

theorem readNames_buried (n : Nat) : (buried n getX).readNames = ["x"] := by
  induction n with
  | zero => rfl
  | succ n ih =>
      rw [readNames, reached_buried]
      exact ih

theorem boundNames_setX (t : Tree) : t.setX.boundNames = "x" :: t.boundNames := by
  have hreached : t.setX.reached = t.setX :: .number 0 :: t.reached := by
    simp [setX, reached, reachedForm, reachedBound, reachedAll, boundName?, Command.ofName?]
  rw [boundNames, hreached]
  rfl

/-! ### Their values -/

theorem evaluate_buried {e : Env} {v : Value} (h : t.evaluate.run e = ⟨.ok v, e, []⟩) (n : Nat) :
    (buried n t).evaluate.run e = ⟨.ok (v.buried n), e, []⟩ := by
  induction n with
  | zero => exact h
  | succ n ih => simp [buried, evaluate, evaluateForm, evaluateAll, ih, Except.map, Value.buried]

/-- The value is bound as it is, unless it is a list of one. -/
theorem env_evaluate_setX {e : Env} {w : Value} (h : t.evaluate.run e = ⟨.ok w, e, []⟩)
    (hw : w.unwrap = w) : (t.setX.evaluate.run e).env = e.bind "x" (.list [.int 0, w]) := by
  have hzero : (number 0).evaluate.run e = ⟨.ok (.int 0), e, []⟩ := rfl
  have hlast : (evaluateAll [t]).run e = ⟨.ok [w], e, []⟩ := evaluateAll_cons_run h rfl
  have hargs : (evaluateAll [.number 0, t]).run e = ⟨.ok [.int 0, w], e, []⟩ :=
    evaluateAll_cons_run hzero hlast
  have hslot : (name "x").boundName? = some "x" := rfl
  rw [setX, evaluate, evaluateForm_set rfl, Action.map_run, bindVariable_run hslot (by simp) hargs,
    List.map_cons, List.map_cons, List.map_nil, hw]
  rfl

end Tree

namespace Session

open FormLang.Action

/-- A text whose lists are nested as deep as they may be: `(0 (0 … (0 (get x))…))`. -/
def tower : String := Tree.buriedText (maxDepth - 1)

/-- A text that binds `x` to a list with what `x` was as deep inside as may be:
`(set x 0 (0 … (0 (get x))…))`. -/
def raising : String := "(set x 0 " ++ Tree.buriedText (maxDepth - 2) ++ ")"

theorem ofSource_tower : (Tree.ofSource tower).tree = .buried (maxDepth - 1) .getX := by
  unfold tower
  rw [← Tree.source_buried, Tree.ofSource_buried (by decide)]

theorem ofSource_raising : (Tree.ofSource raising).tree = .setX (.buried (maxDepth - 2) .getX) := by
  unfold raising
  rw [← Tree.source_buried, ← Tree.source_setX, Tree.ofSource_setX (Tree.written_buried _)]
  rw [Tree.depth_buried]
  decide

/-- What looking up `x` is worth. -/
def content (e : Env) : Value := .list ((e.get? "x").elim [] Value.elements)

/-- Looking up `x` does nothing besides, whether it is bound or not. -/
theorem evaluate_getX (e : Env) : Tree.getX.evaluate.run e = ⟨.ok (content e), e, []⟩ := by
  have hslot : (Tree.name "x").readName? = .ok (some "x") := rfl
  rw [Tree.getX, Tree.evaluate, Tree.evaluateForm_get rfl, map_run, Tree.readVariable_run hslot]
  rfl

/-- The text binds `x` to what it was worth, inside all the levels of a program but one. -/
theorem env_run_raising (options : Options) (e : Env) :
    ((run options raising).run e).env = e.bind "x" ((content e).buried (maxDepth - 1)) := by
  have hburied := Tree.evaluate_buried (evaluate_getX e) (maxDepth - 2)
  rw [run_env, ofSource_raising, Tree.env_evaluate_setX hburied rfl]
  rfl

/-- Each run of the text puts what `x` is worth, at first an empty list, so many levels further inside. -/
theorem content_after (options : Options) (n : Nat) :
    content (after options Env.empty (List.replicate n raising)) =
      (Value.list []).buried ((maxDepth - 1) * n) := by
  induction n with
  | zero => rfl
  | succ n ih =>
      have hlast : ∀ e, after options e [raising] = ((run options raising).run e).env := fun _ => rfl
      have hlist : (Value.list []).buried ((maxDepth - 1) * n + (maxDepth - 1)) =
          .list [.int 0, (Value.list []).buried ((maxDepth - 1) * n + (maxDepth - 2))] := rfl
      rw [List.replicate_succ', after_append, hlast, env_run_raising, ih, Value.buried_add,
        Nat.add_comm, content, Env.get?_bind_self, Nat.mul_succ, hlist]
      rfl

theorem boundNames_replicate (n : Nat) :
    (reached (List.replicate n raising)).filterMap Tree.setName? = List.replicate n "x" := by
  induction n with
  | zero => rfl
  | succ n ih =>
      rw [List.replicate_succ, reached_cons, List.filterMap_append, ih]
      show Tree.boundNames _ ++ _ = _
      rw [ofSource_raising, Tree.boundNames_setX, Tree.boundNames_buried]
      rfl

/-- How often the first text is run is how often a name is bound that is looked up. -/
theorem feedbacks_tower (n : Nat) : feedbacks (List.replicate n raising ++ [tower]) = n := by
  have htower : reached [tower] = (Tree.buried (maxDepth - 1) .getX).reached := by
    rw [reached, List.flatMap_singleton, ofSource_tower]
  have hlookedUp : "x" ∈ lookedUp (List.replicate n raising ++ [tower]) := by
    unfold lookedUp
    rw [reached_append, List.filterMap_append, htower]
    apply List.mem_append_right
    show "x" ∈ Tree.readNames _
    rw [Tree.readNames_buried]
    exact List.mem_singleton_self "x"
  unfold feedbacks
  rw [reached_append, List.filterMap_append, boundNames_replicate, htower]
  show (_ ++ Tree.boundNames _).countP _ = n
  rw [Tree.boundNames_buried, List.append_nil, List.countP_replicate]
  simp [hlookedUp]

/-- **There are sessions in which values are nested as deep as they may be**, whatever the number of
bindings that are looked up. So there is no bound for all sessions. -/
theorem depth_run_tower (options : Options) (n : Nat) :
    feedbacks (List.replicate n raising ++ [tower]) = n ∧
    ∃ v, ((run options tower).run (after options Env.empty (List.replicate n raising))).result
        = .ok v ∧ v.depth = maxDepth + (maxDepth - 1) * n := by
  refine ⟨feedbacks_tower n, ?_⟩
  refine ⟨((Value.list []).buried ((maxDepth - 1) * n)).buried (maxDepth - 1), ?_, ?_⟩
  · rw [run_result, ofSource_tower, Tree.evaluate_buried (evaluate_getX _), content_after]
  · have hlist : (Value.list []).depth + (maxDepth - 1) = maxDepth := by decide
    rw [Value.depth_buried, Value.depth_buried]
    omega

/-- After `raising` the value of `tower` is nested deeper than any program. -/
theorem not_nestsWithin_maxDepth :
    ¬ ∀ options srcs src,
      NestsWithin maxDepth ((run options src).run (after options Env.empty srcs)) := by
  intro h
  obtain ⟨-, v, hv, hdepth⟩ := depth_run_tower {} 1
  obtain ⟨w, hw, hle⟩ := (h {} [raising] tower).result
  have hsame : Except.ok v = Except.ok w := hv.symm.trans hw
  obtain rfl := Except.ok.inj hsame
  have hmore : 0 < maxDepth - 1 := by decide
  omega

end Session
end FormLang
