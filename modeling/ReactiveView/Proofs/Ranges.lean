import ReactiveView.Proofs.Evaluation

namespace ReactiveView

def Has64Bits (n : Int) : Prop := -0x8000000000000000 ≤ n ∧ n < 0x8000000000000000

def Value.InRange : Value → Prop
  | .int n => Has64Bits n
  | _ => True

def State.InRange (s : State) : Prop := ∀ name v, s.get? name = some v → v.InRange

theorem has64Bits_wrap64 (n : Int) : Has64Bits (wrap64 n) := by
  constructor
  · exact Int.le_bmod (by decide)
  · exact Int.bmod_lt (by decide)

theorem Value.inRange_ofInt (n : Int) : (Value.ofInt n).InRange := has64Bits_wrap64 n

theorem State.InRange.put {s : State} (hs : s.InRange) {v : Value} (hv : v.InRange) (name : String) :
    State.InRange (s.put name v) := by
  intro other w h
  rw [Table.get?_put] at h
  by_cases hn : other = name
  · rw [if_pos hn] at h
    cases h
    exact hv
  · rw [if_neg hn] at h
    exact hs other w h

namespace Expr

mutual

def parts : Expr → List Expr
  | .literal v => [.literal v]
  | .ident name => [.ident name]
  | .unary op operand => .unary op operand :: operand.parts
  | .binary op left right => .binary op left right :: (left.parts ++ right.parts)
  | .call callee args => .call callee args :: partsAll args

def partsAll : List Expr → List Expr
  | [] => []
  | e :: es => e.parts ++ partsAll es

end

def InRange (e : Expr) : Prop := ∀ v, .literal v ∈ e.parts → v.InRange

mutual

theorem parts_subset : ∀ {e part : Expr}, part ∈ e.parts → part.parts ⊆ e.parts
  | .literal v, part, h => by
    rw [parts, List.mem_singleton] at h
    rw [h]
    exact List.Subset.refl _
  | .ident name, part, h => by
    rw [parts, List.mem_singleton] at h
    rw [h]
    exact List.Subset.refl _
  | .unary op operand, part, h => by
    rw [parts, List.mem_cons] at h
    rcases h with rfl | h
    · exact List.Subset.refl _
    · rw [parts]
      exact List.subset_cons_of_subset _ (parts_subset h)
  | .binary op left right, part, h => by
    rw [parts, List.mem_cons, List.mem_append] at h
    rcases h with rfl | h | h
    · exact List.Subset.refl _
    · rw [parts]
      exact List.subset_cons_of_subset _ (List.subset_append_of_subset_left _ (parts_subset h))
    · rw [parts]
      exact List.subset_cons_of_subset _ (List.subset_append_of_subset_right _ (parts_subset h))
  | .call callee args, part, h => by
    rw [parts, List.mem_cons] at h
    rcases h with rfl | h
    · exact List.Subset.refl _
    · rw [parts]
      exact List.subset_cons_of_subset _ (partsAll_subset h)

theorem partsAll_subset : ∀ {es : List Expr} {part : Expr}, part ∈ partsAll es →
    part.parts ⊆ partsAll es
  | [], part, h => by
    rw [partsAll] at h
    cases h
  | e :: es, part, h => by
    rw [partsAll, List.mem_append] at h
    rw [partsAll]
    rcases h with h | h
    · exact List.subset_append_of_subset_left _ (parts_subset h)
    · exact List.subset_append_of_subset_right _ (partsAll_subset h)

end

theorem InRange.part {e part : Expr} (he : e.InRange) (h : part ∈ e.parts) : part.InRange :=
  fun v hv => he v (parts_subset h hv)

end Expr

/-- An answer, if there is one, is of a certain sort. -/
def Yields {α : Type} (P : α → Prop) (answer : Except Fault α) : Prop := ∀ a, answer = .ok a → P a

namespace Yields

variable {α β : Type} {P : α → Prop} {Q : β → Prop}

theorem ok {a : α} (h : P a) : Yields P (.ok a) := by
  rintro other ⟨⟩
  exact h

theorem error (fault : Fault) : Yields P (.error fault) := fun _ h => nomatch h

theorem bind {answer : Except Fault α} {f : α → Except Fault β} (h : Yields P answer)
    (hf : ∀ a, P a → Yields Q (f a)) : Yields Q (answer >>= f) := by
  cases answer with
  | error fault => exact error fault
  | ok a => exact hf a (h a rfl)

theorem map {answer : Except Fault α} {f : α → β} (h : Yields P answer) (hf : ∀ a, P a → Q (f a)) :
    Yields Q (answer.map f) := by
  cases answer with
  | error fault => exact error fault
  | ok a => exact ok (hf a (h a rfl))

theorem always (answer : Except Fault α) : Yields (fun _ => True) answer := fun _ _ => trivial

end Yields

abbrev YieldsInRange (answer : Except Fault Value) : Prop := Yields Value.InRange answer

namespace Builtin

theorem toWhole_inRange (b : Builtin) (x : Binary64) : YieldsInRange (toWhole b x) := by
  rw [toWhole]
  split
  · exact .error _
  · split
    · exact .ok ⟨by decide, by decide⟩
    · split
      · exact .ok ⟨by decide, by decide⟩
      · rw [convert]
        split
        · rename_i v hv
          rw [Value.ofNumber?] at hv
          split at hv
          · cases hv
            exact .ok (Value.inRange_ofInt _)
          · cases hv
        · exact .error _

theorem has64Bits_clamp64 (n : Int) : Has64Bits (clamp64 n) := by
  have hmax : maxInt = 0x7FFFFFFFFFFFFFFF := rfl
  have hmin : minInt = -0x8000000000000000 := rfl
  rw [clamp64, Has64Bits]
  split
  · omega
  · split <;> omega

def Numeric.InRange (x : Numeric) : Prop := x.value.InRange

theorem expectNumber_inRange (b : Builtin) {v : Value} (hv : v.InRange) :
    Yields Numeric.InRange (expectNumber b v) := by
  cases v with
  | int n => exact .ok hv
  | float x => exact .ok trivial
  | str s | bool c | null => exact .error _

theorem rounded_inRange (b : Builtin) (rounding : Binary64.Rounding) {v : Value} (hv : v.InRange) :
    YieldsInRange (rounded b rounding v) := by
  cases v with
  | int n => exact .ok hv
  | float x => exact toWhole_inRange b _
  | str s | bool c | null => exact .error _

theorem choose_inRange (b : Builtin) (smaller : Bool) {v w : Value} (hv : v.InRange)
    (hw : w.InRange) : YieldsInRange (choose b smaller v w) := by
  refine (expectNumber_inRange b hv).bind fun x hx => ?_
  refine (expectNumber_inRange b hw).bind fun y hy => ?_
  cases x with
  | int m =>
    cases y with
    | int n =>
      have hboth (c : Prop) [Decidable c] : Has64Bits (if c then m else n) := by
        split
        · exact hx
        · exact hy
      exact .ok (hboth _)
    | float y => exact .ok trivial
  | float x => cases y <;> exact .ok trivial

theorem toInt_inRange {v : Value} (hv : v.InRange) : YieldsInRange (toInt v) := by
  cases v with
  | int n => exact .ok hv
  | float x => exact toWhole_inRange .int _
  | bool b => cases b <;> exact .ok ⟨by decide, by decide⟩
  | null => exact .error _
  | str s =>
    unfold toInt
    dsimp only
    split
    · exact .ok (has64Bits_clamp64 _)
    · split
      · exact toWhole_inRange .int _
      · exact .error _

theorem toFloat_inRange (v : Value) : YieldsInRange (toFloat v) := by
  cases v with
  | int n | float x | bool b => exact .ok trivial
  | null => exact .error _
  | str s =>
    unfold toFloat
    dsimp only
    split
    · exact .ok trivial
    · exact .error _

theorem absolute_inRange {v : Value} (hv : v.InRange) : YieldsInRange (absolute v) := by
  cases v with
  | int n =>
    apply Yields.ok
    split
    · exact Value.inRange_ofInt (-n)
    · exact hv
  | float x => exact .ok trivial
  | str s | bool c | null => exact .error _

theorem pad_inRange (b : Builtin) (atStart : Bool) (vs : List Value) :
    YieldsInRange (pad b atStart vs) := by
  match vs with
  | [] | [_] => exact .error _
  | v :: w :: rest =>
    refine (Yields.always (expectText b v)).bind fun s _ => ?_
    refine (Yields.always (expectWhole b w)).bind fun width _ => ?_
    have hfill (fill : String) : YieldsInRange (if memoryLimitBytes < width then
        throw (.sandbox (.widthExceeded b width))
        else (.ok (.str (padded atStart s width fill)) : Answer)) := by
      split
      · exact .error _
      · exact .ok trivial
    cases rest with
    | nil => exact hfill " "
    | cons u _ => exact (Yields.always (expectText b u)).bind fun fill _ => hfill fill

section Arguments

variable {b : Builtin} {vs : List Value} (hvs : ∀ v ∈ vs, v.InRange)

include hvs

theorem unary_inRange {f : Value → Answer} (hf : ∀ v, v.InRange → YieldsInRange (f v)) :
    YieldsInRange (unary b f vs) := by
  match vs with
  | [] => exact .error _
  | v :: _ => exact hf v (hvs v List.mem_cons_self)

theorem binary_inRange {f : Value → Value → Answer}
    (hf : ∀ v w, v.InRange → w.InRange → YieldsInRange (f v w)) : YieldsInRange (binary b f vs) := by
  match vs with
  | [] | [_] => exact .error _
  | v :: w :: _ => exact hf v w (hvs v (by simp)) (hvs w (by simp))

theorem apply_inRange (b : Builtin) : YieldsInRange (b.apply vs) := by
  cases b with
  | abs => exact unary_inRange hvs fun v hv => absolute_inRange hv
  | min | max => exact binary_inRange hvs fun v w hv hw => choose_inRange _ _ hv hw
  | floor | ceil | round => exact unary_inRange hvs fun v hv => rounded_inRange _ _ hv
  | sqrt =>
    exact unary_inRange hvs fun v _ => (Yields.always (expectNumber .sqrt v)).bind fun _ _ => .ok trivial
  | len =>
    exact unary_inRange hvs fun v _ => (Yields.always (expectText .len v)).bind fun s _ =>
      .ok (Value.inRange_ofInt _)
  | upper | lower | trim =>
    exact unary_inRange hvs fun v _ => (Yields.always (expectText _ v)).bind fun _ _ => .ok trivial
  | str | bool | isNull | type => exact unary_inRange hvs fun _ _ => .ok trivial
  | contains | startsWith | endsWith =>
    exact binary_inRange hvs fun v w _ _ => (Yields.always (expectText _ v)).bind fun _ _ =>
      (Yields.always (expectText _ w)).bind fun _ _ => .ok trivial
  | replace =>
    match vs with
    | [] | [_] | [_, _] => exact .error _
    | v :: w :: u :: _ =>
      exact (Yields.always (expectText .replace v)).bind fun _ _ =>
        (Yields.always (expectText .replace w)).bind fun _ _ =>
          (Yields.always (expectText .replace u)).bind fun _ _ => .ok trivial
  | padStart | padEnd => exact pad_inRange _ _ vs
  | int => exact unary_inRange hvs fun v hv => toInt_inRange hv
  | float => exact unary_inRange hvs fun v _ => toFloat_inRange v

end Arguments

end Builtin

namespace Expr

theorem mismatch_yields {α : Type} {P : α → Prop} (symbol : String) (v : Value) (w : Option Value) :
    Yields P (mismatch symbol v w) := .error _

theorem applyUnary_inRange (op : UnaryOp) (v : Value) : YieldsInRange (applyUnary op v) := by
  cases op with
  | not =>
    cases v with
    | bool b => exact .ok trivial
    | int n | float x | str s | null => exact mismatch_yields _ _ _
  | neg =>
    cases v with
    | int n => exact .ok (Value.inRange_ofInt (-n))
    | float x => exact .ok trivial
    | bool b | str s | null => exact mismatch_yields _ _ _

theorem applyWhole_inRange (op : ArithmeticOp) (m n : Int) : YieldsInRange (applyWhole op m n) := by
  cases op with
  | add | sub | mul => exact .ok (Value.inRange_ofInt _)
  | div =>
    rw [applyWhole]
    split
    · exact .error _
    · exact .ok trivial
  | rem =>
    rw [applyWhole]
    split
    · exact .error _
    · exact .ok (Value.inRange_ofInt _)

theorem applyBinary64_inRange (op : ArithmeticOp) (x y : Binary64) :
    YieldsInRange (applyBinary64 op x y) := by
  cases op with
  | add | sub | mul => exact .ok trivial
  | div | rem =>
    rw [applyBinary64]
    split
    · exact .error _
    · exact .ok trivial

theorem applyArithmetic_inRange (op : ArithmeticOp) (v w : Value) :
    YieldsInRange (applyArithmetic op v w) := by
  simp only [applyArithmetic]
  split
  · exact applyWhole_inRange op _ _
  · split
    · exact applyBinary64_inRange op _ _
    · exact mismatch_yields _ _ _

theorem applyPower_inRange (v w : Value) : YieldsInRange (applyPower v w) := by
  simp only [applyPower]
  split
  · split
    · exact .ok (Value.inRange_ofInt _)
    · exact .ok trivial
  · split
    · exact .ok trivial
    · exact mismatch_yields _ _ _

theorem applyRelational_inRange (op : RelationalOp) (v w : Value) :
    YieldsInRange (applyRelational op v w) := by
  simp only [applyRelational]
  split
  · exact .ok trivial
  · split
    · exact .ok trivial
    · exact mismatch_yields _ _ _

theorem applyBinary_inRange (op : BinaryOp) {v w : Value} (hv : v.InRange) (hw : w.InRange) :
    YieldsInRange (applyBinary op v w) := by
  cases op with
  | arithmetic op =>
    cases op with
    | add =>
      rw [applyBinary]
      split
      · exact .ok trivial
      · exact applyArithmetic_inRange _ _ _
    | sub | mul | div | rem => exact applyArithmetic_inRange _ _ _
  | pow => exact applyPower_inRange v w
  | relational op => exact applyRelational_inRange op v w
  | eq | ne => exact .ok trivial
  | coalesce =>
    rw [applyBinary]
    apply Yields.ok
    split
    · exact hw
    · exact hv
  | and | or =>
    cases v with
    | bool b =>
      cases w with
      | bool c => exact .ok trivial
      | int n | float x | str t | null => exact mismatch_yields _ _ _
    | int n | float x | str t | null => exact mismatch_yields _ _ _

theorem decided_inRange {op : BinaryOp} {v : Value} (hv : v.InRange) {answer : Except Fault Value}
    (h : decided? op v = some answer) : YieldsInRange answer := by
  simp only [decided?] at h
  split at h <;> cases h
  · exact .ok hv
  · exact .ok hv
  · exact mismatch_yields _ _ _
  · exact mismatch_yields _ _ _
  · exact .ok hv

theorem lookup_inRange {s : State} (hs : s.InRange) (name : String) :
    YieldsInRange (lookup s name) := by
  rw [lookup]
  split
  · rename_i v hv
    exact .ok (hs name v hv)
  · exact .error _

mutual

theorem evaluate_inRange {s : State} (hs : s.InRange) : ∀ e : Expr, e.InRange →
    YieldsInRange (e.evaluate s)
  | .literal v, he => by
    rw [evaluate]
    apply Yields.ok
    apply he
    rw [parts]
    exact List.mem_singleton_self _
  | .ident name, _ => by
    rw [evaluate]
    exact lookup_inRange hs name
  | .unary op operand, he => by
    have ho : operand.InRange := fun v hv => he v (by rw [parts]; exact List.mem_cons_of_mem _ hv)
    rw [evaluate]
    exact (evaluate_inRange hs operand ho).bind fun v _ => applyUnary_inRange op v
  | .binary op left right, he => by
    have hl : left.InRange := fun v hv => he v (by simp [parts, hv])
    have hr : right.InRange := fun v hv => he v (by simp [parts, hv])
    rw [evaluate]
    refine (evaluate_inRange hs left hl).bind fun v hv => ?_
    cases hd : decided? op v with
    | some answer => exact decided_inRange hv hd
    | none => exact (evaluate_inRange hs right hr).bind fun w hw => applyBinary_inRange op hv hw
  | .call callee args, he => by
    have ha : ∀ v, .literal v ∈ partsAll args → v.InRange :=
      fun v hv => he v (by rw [parts]; exact List.mem_cons_of_mem _ hv)
    rw [evaluate]
    split
    · exact .error _
    · rename_i b hb
      exact (evaluateAll_inRange hs args ha).bind fun vs hvs => Builtin.apply_inRange hvs b

theorem evaluateAll_inRange {s : State} (hs : s.InRange) : ∀ es : List Expr,
    (∀ v, .literal v ∈ partsAll es → v.InRange) →
      Yields (fun vs => ∀ v ∈ vs, Value.InRange v) (evaluateAll s es)
  | [], _ => by
    rw [evaluateAll]
    exact .ok fun v hv => nomatch hv
  | e :: es, h => by
    have he : e.InRange := fun v hv => h v (by simp [partsAll, hv])
    have hes : ∀ v, .literal v ∈ partsAll es → v.InRange := fun v hv => h v (by simp [partsAll, hv])
    rw [evaluateAll]
    refine (evaluate_inRange hs e he).bind fun v hv => ?_
    refine (evaluateAll_inRange hs es hes).bind fun vs hvs => ?_
    apply Yields.ok
    intro w hw
    rcases List.mem_cons.1 hw with rfl | hw
    · exact hv
    · exact hvs w hw

end

end Expr

end ReactiveView
