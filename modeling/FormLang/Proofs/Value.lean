import FormLang.Env
import FormLang.Operation
import FormLang.Proofs.Numeral

/-!
# `FormLang.Proofs.Value` — the values of the language

A program computes with numbers, texts and lists of these. No operation leaves this domain: values that
only a host can make come out of a program only if they went in. The argument needs little of the domain
(`IsDomain`), and holds as well of the domain of all values.

## Contents
- `Value.IsDomain`: a domain of values that programs cannot leave.
- `Value.IsLanguage`: numbers, texts, and lists of such values.
- `Env.Binds`, `Env.IsLanguage`: variables bound to values of a domain, or of the language.
- `IsDomain.combine`: arithmetic stays in a domain.
- `Operation.IsDefined`: operands for which an operation by itself has a meaning.
- `isDefined_of_accepts`, `accepts_combine`: operands that are combined have one, and what comes of them
  can be combined again.
- `natAbs_lt_of_toInt?`: a double that is whole has not too many digits.
-/

namespace FormLang

/-- A number, a text, or a list of such values. -/
inductive Value.IsLanguage : Value → Prop where
  | number (n : Number) : IsLanguage (.number n)
  | text (s : String) : IsLanguage (.text s)
  | list {vs : List Value} (h : ∀ v ∈ vs, IsLanguage v) : IsLanguage (.list vs)

namespace Value

theorem isLanguage_list_iff {vs : List Value} :
    (Value.list vs).IsLanguage ↔ ∀ v ∈ vs, v.IsLanguage := by
  constructor
  · intro h
    cases h with
    | list h => exact h
  · exact .list

/-- A domain of values holds all numbers and texts, and a list exactly if it holds its elements. -/
structure IsDomain (p : Value → Prop) : Prop where
  number : ∀ n, p (.number n)
  text : ∀ s, p (.text s)
  list : ∀ vs, p (.list vs) ↔ ∀ v ∈ vs, p v

theorem isDomain_isLanguage : IsDomain IsLanguage :=
  ⟨.number, .text, fun _ => isLanguage_list_iff⟩

theorem isDomain_all : IsDomain fun _ => True :=
  ⟨fun _ => trivial, fun _ => trivial, fun _ => ⟨fun _ _ _ => trivial, fun _ => trivial⟩⟩

variable {p : Value → Prop}

/-- What a command sees of a value of the domain belongs to the domain. -/
theorem IsDomain.unwrap (hp : IsDomain p) {v : Value} (h : p v) : p v.unwrap := by
  rw [Value.unwrap.eq_def]
  split
  · exact (hp.list _).mp h _ List.mem_cons_self
  · exact h

theorem IsDomain.elements (hp : IsDomain p) {v : Value} (h : p v) : ∀ w ∈ v.elements, p w := by
  cases v with
  | list vs => exact (hp.list vs).mp h
  | _ => exact fun w hw => List.mem_singleton.mp hw ▸ h

end Value

/-! ## Variables -/

/-- All variables that are bound are bound to values of the domain. -/
def Env.Binds (p : Value → Prop) (e : Env) : Prop := ∀ x v, e.get? x = some v → p v

/-- All variables that are bound are bound to values of the language. -/
def Env.IsLanguage (e : Env) : Prop := e.Binds Value.IsLanguage

theorem Env.isLanguage_empty : Env.empty.IsLanguage := by
  intro x v h
  rw [Env.get?_empty] at h
  cases h

/-- A binding to a value of the domain keeps all variables in the domain. -/
theorem Env.Binds.bind {p : Value → Prop} {e : Env} (he : e.Binds p) (x : String) {v : Value}
    (hv : p v) : (e.bind x v).Binds p := by
  intro y w hw
  by_cases hy : y = x
  · rw [hy, Env.get?_bind_self] at hw
    rwa [← Option.some.inj hw]
  · rw [Env.get?_bind_of_ne e v hy] at hw
    exact he y w hw

theorem Env.IsLanguage.bind {e : Env} (he : e.IsLanguage) (x : String) {v : Value}
    (hv : v.IsLanguage) : (e.bind x v).IsLanguage :=
  Env.Binds.bind he x hv

/-! ## Arithmetic -/

variable {op : Operation} {a v r : Value}

namespace Value

variable {p : Value → Prop}

theorem IsDomain.applyNumbers (hp : IsDomain p) (h : op.applyNumbers a v = .ok r) : p r := by
  rw [Operation.applyNumbers.eq_def] at h
  split at h
  · split at h
    · exact Except.ok.inj h ▸ hp.number _
    · cases h
  · cases h

theorem IsDomain.apply (hp : IsDomain p) (h : op.apply a v = .ok r) : p r := by
  rw [Operation.apply] at h
  split at h
  · exact Except.ok.inj h ▸ hp.text _
  · split at h
    · cases h
    · exact hp.applyNumbers h

/-- **An operation that takes one more operand of a domain stays in the domain.** -/
theorem IsDomain.combine (hp : IsDomain p) {soFar : Option Value} (hv : p v)
    (h : op.combine soFar v = .ok r) : p r := by
  unfold Operation.combine at h
  split at h
  · cases soFar with
    | none => exact Except.ok.inj h ▸ hv
    | some a => exact hp.apply h
  · cases h

end Value

namespace Operation

/-- Where an operation by itself has a meaning: addition joins a text with anything, arithmetic takes
two numbers, and zero divides nothing. -/
def IsDefined (op : Operation) (a v : Value) : Prop :=
  (op = add ∧ (a.isText || v.isText) = true) ∨
    (a.isNumber = true ∧ v.isNumber = true ∧ (op = div → v.isZero = false))

instance (op : Operation) (a v : Value) : Decidable (op.IsDefined a v) :=
  inferInstanceAs (Decidable (_ ∨ _))

/-- Two operands that the operation accepts can be combined, except for a division by zero. -/
theorem isDefined_of_accepts (ha : op.accepts a = true) (hv : op.accepts v = true)
    (hzero : op = div → v.isZero = false) : op.IsDefined a v := by
  cases op with
  | add =>
      rw [accepts, Value.isScalar, Bool.or_eq_true] at ha hv
      rcases ha with ha | ha
      · rcases hv with hv | hv
        · exact .inr ⟨ha, hv, hzero⟩
        · exact .inl ⟨rfl, by rw [hv, Bool.or_true]⟩
      · exact .inl ⟨rfl, by rw [ha, Bool.true_or]⟩
  | sub => exact .inr ⟨ha, hv, hzero⟩
  | mul => exact .inr ⟨ha, hv, hzero⟩
  | div => exact .inr ⟨ha, hv, hzero⟩

/-- Zero divides nothing. -/
theorem apply_div_of_isZero (a : Value) (h : v.isZero = true) :
    div.apply a v = .error .divisionByZero := by
  simp [apply, h]

theorem accepts_number (op : Operation) (n : Number) : op.accepts (.number n) = true := by
  cases op <;> rfl

/-- What an operation gives it also takes. -/
theorem accepts_apply (h : op.apply a v = .ok r) : op.accepts r = true := by
  rw [apply] at h
  split at h
  · rename_i htext
    obtain ⟨hop, -⟩ := Bool.and_eq_true_iff.mp htext
    rw [of_decide_eq_true hop, ← Except.ok.inj h]
    rfl
  · split at h
    · cases h
    · rw [applyNumbers.eq_def] at h
      split at h
      · split at h
        · exact Except.ok.inj h ▸ accepts_number op _
        · cases h
      · cases h

/-- What has been combined so far is always something that the operation takes. -/
theorem accepts_combine {soFar : Option Value} (h : op.combine soFar v = .ok r) :
    op.accepts r = true := by
  unfold combine at h
  split at h
  · rename_i hv
    cases soFar with
    | none => exact Except.ok.inj h ▸ hv
    | some a => exact accepts_apply h
  · cases h

end Operation

/-! ## Whole doubles -/

namespace Binary64

theorem significand_lt (rank : Nat) : significand rank < Nat.pow 2 53 := by
  have hpow : Nat.pow 2 53 = Nat.pow 2 52 + Nat.pow 2 52 := rfl
  rw [significand]
  split
  · omega
  · have hrest : rank % Nat.pow 2 52 < Nat.pow 2 52 := Nat.mod_lt _ (Nat.pow_pos (by decide))
    omega

theorem shift_le {rank : Nat} (h : rank < infinityRank) : shift rank ≤ 2045 := by
  have hexponent : rank / Nat.pow 2 52 < 2047 := Nat.div_lt_of_lt_mul (Nat.mul_comm .. ▸ h)
  rw [shift]
  omega

/-- **A double that is whole has not too many digits.** -/
theorem natAbs_lt_of_toInt? {x : Binary64} {n : Int} (h : x.toInt? = some n) :
    n.natAbs < Numeral.limit := by
  cases x with
  | nan => cases h
  | signed negative rank =>
      rw [toInt?] at h
      split at h
      · cases h
      · rename_i hfinite
        split at h
        · have hrank : rank.val < infinityRank :=
            Nat.lt_of_le_of_ne (Nat.le_of_lt_succ rank.isLt) hfinite
          have hdigits : 53 + shift rank ≤ Numeral.maxDigits :=
            Nat.le_trans (Nat.add_le_add_left (shift_le hrank) 53) (by decide)
          have hsigned : (signedUnits negative rank).natAbs = units rank := by
            rw [signedUnits]
            split
            · rw [Int.natAbs_neg, Int.natAbs_natCast]
            · exact Int.natAbs_natCast _
          -- the number of units itself is small enough, and division makes it no greater
          calc n.natAbs ≤ (signedUnits negative rank).natAbs := by
                rw [← Option.some.inj h]
                exact Int.natAbs_ediv_le_natAbs _ _
            _ = significand rank * Nat.pow 2 (shift rank) := hsigned
            _ < Nat.pow 2 53 * Nat.pow 2 (shift rank) :=
                Nat.mul_lt_mul_of_pos_right (significand_lt rank) (Nat.pow_pos (by decide))
            _ = Nat.pow 2 (53 + shift rank) := (Nat.pow_add 2 53 (shift rank)).symm
            _ ≤ Numeral.limit := Numeral.pow_le_limit (by decide) hdigits
        · cases h

end Binary64
end FormLang
