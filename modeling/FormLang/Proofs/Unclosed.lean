import FormLang.Proofs.Session
import FormLang.Proofs.Tree.Closing
import Mathlib.Data.List.Infix

/-!
# `FormLang.Proofs.Unclosed` — a program without an end has no effect

A program may hold any number of forms that are complete, one after the other or within each other. None
of them is evaluated if the parenthesis that encloses them all is missing: the reader makes the whole
program into one remark, whichever lists are open when the tokens end, and whether or not one of them was
passed over. All that a run then does is report.

## Contents
- `Tree.Unclosed`: the balance of the tokens never comes back to zero.
- `Tree.unclosed_iff`: this makes a program the remark that it is unterminated, and nothing else does.
- `Session.run_unclosed`: what a run of such a program does.
-/

namespace FormLang
namespace Tree

variable {ts : List Token}

/-- The balance of a program never comes back to zero: in no first part of its tokens, the parenthesis
included that is put in front where it is missing, do as many close as open. -/
def Unclosed (ts : List Token) : Prop := ∀ p, p <+: framed ts → p ≠ [] → closes p ≠ opens p

instance (ts : List Token) : Decidable (Unclosed ts) :=
  decidable_of_iff (∀ p ∈ (framed ts).inits, p ≠ [] → closes p ≠ opens p)
    ⟨fun h p hp => h p ((List.mem_inits p _).mpr hp), fun h p hp => h p ((List.mem_inits p _).mp hp)⟩

/-- **A program is unterminated exactly if its balance never comes back to zero.** -/
theorem unclosed_iff : Unclosed ts ↔ (Tree.parse ts).tree = unterminated := by
  constructor
  · intro h
    rcases parse_list_or_unterminated ts with ⟨⟨p, hp, hne, hcount⟩, -⟩ | ⟨-, htree⟩
    · exact absurd hcount (h p hp hne)
    · exact htree
  · intro htree p hp hne hcount
    rcases parse_list_or_unterminated ts with ⟨-, us, hlist⟩ | ⟨hopen, -⟩
    · rw [htree] at hlist
      cases hlist
    · exact hopen ⟨p, hp, hne, hcount⟩

end Tree

namespace Session

/-- **A program without an end has no effect.** With nothing shown besides, a run of a program the balance
of which never comes back to zero gives the text of the remark, whatever the variables hold, and leaves
them as they are. It logs nothing, and it reports what the scanner has to report, that the first
parenthesis is missing if it is, and once that the program is unterminated. -/
theorem run_unclosed {options : Options} (htokens : options.showTokens = false)
    (htree : options.showTree = false) {src : String} (h : Tree.Unclosed (scan src).tokens)
    (e : Env) :
    ∃ remarks, (run options src).run e
        = ⟨.ok (.text "unterminated list"), e, ((scan src).diagnostics ++ remarks).map .error⟩ ∧
      remarks.map Diagnostic.message
        = (if Tree.StartsOpen (scan src).tokens then [] else ["left parenthesis not found"])
          ++ ["unterminated list"] := by
  have hunterminated : (Tree.ofSource src).tree = Tree.unterminated := Tree.unclosed_iff.mp h
  have hdiagnostics : (Tree.ofSource src).diagnostics
      = (scan src).diagnostics ++ (Tree.parse (scan src).tokens).diagnostics := rfl
  have hevaluate : Tree.unterminated.evaluate.run e
      = ⟨.ok (.text "unterminated list"), e, [.error (.malformed "unterminated list")]⟩ := rfl
  refine ⟨(Tree.parse (scan src).tokens).diagnostics ++ [.malformed "unterminated list"], ?_, ?_⟩
  · rw [run_quiet htokens htree src e, hunterminated, hevaluate, hdiagnostics]
    simp only [List.map_append, List.append_assoc]
    rfl
  · rw [List.map_append, Tree.parse_diagnostics]
    split <;> rfl

/-- A name where the first parenthesis should be, two complete forms, and a quote without a partner that
hides the parentheses behind it. -/
theorem run_unclosed_forms :
    ({} : Options).showTokens = false ∧ ({} : Options).showTree = false ∧
    Tree.Unclosed (scan "x (set x 1) (print (get x)) ((2) \"))").tokens ∧
    ∃ remarks, (run {} "x (set x 1) (print (get x)) ((2) \"))").run (Env.empty.bind "x" .absent)
        = ⟨.ok (.text "unterminated list"), Env.empty.bind "x" .absent,
            ((scan "x (set x 1) (print (get x)) ((2) \"))").diagnostics ++ remarks).map .error⟩ ∧
      remarks.map Diagnostic.message
        = (if Tree.StartsOpen (scan "x (set x 1) (print (get x)) ((2) \"))").tokens then []
            else ["left parenthesis not found"]) ++ ["unterminated list"] :=
  have hunclosed : Tree.Unclosed (scan "x (set x 1) (print (get x)) ((2) \"))").tokens := by
    decide +kernel
  ⟨rfl, rfl, hunclosed, run_unclosed rfl rfl hunclosed (Env.empty.bind "x" .absent)⟩

end Session
end FormLang
