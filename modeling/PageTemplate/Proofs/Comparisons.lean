import Mathlib
import PageTemplate.Proofs.LossyText
import PageTemplate.Value.Operators

namespace PageTemplate

namespace Text

theorem compareBytes_eq (a b : List UInt8) : compareBytes a b = compare a b := by
  induction a generalizing b with
  | nil => cases b <;> rfl
  | cons x a ih =>
    cases b with
    | nil => rfl
    | cons y b => rw [compareBytes, ih, List.compare_cons_cons]

theorem compareBytes_eq_lt_iff {a b : List UInt8} : compareBytes a b = .lt ↔ a < b := by
  induction a generalizing b with
  | nil => cases b <;> simp [compareBytes]
  | cons x a ih =>
    cases b with
    | nil => simp [compareBytes]
    | cons y b =>
      rw [compareBytes, Ordering.then_eq_lt, ih, List.cons_lt_cons_iff, Std.compare_eq_lt,
        Std.LawfulEqOrd.compare_eq_iff_eq]

/-- Texts in the other order compare the other way round. -/
theorem compareText_swap (a b : String) : (compareText a b).swap = compareText b a := by
  unfold compareText
  rw [compareBytes_eq, compareBytes_eq]
  exact Std.OrientedOrd.eq_swap.symm

end Text

namespace Value

def Says (op : String) (left right : Value) (pos : Position) (answer : Bool) : Prop :=
  relate op left right pos = .ok (.bool answer)

def Refuses (op : String) (left right : Value) (pos : Position) : Prop :=
  relate op left right pos = .error (mismatch op left right pos)

/-- The order of two values is read alike from both sides, and defined on both or on neither. -/
theorem order?_swap (left right : Value) :
    order? right left = (order? left right).map Ordering.swap := by
  have hint (m n : Int) : compare n m = (compare m n).swap := (Int.compare_swap m n).symm
  cases left with
  | int m =>
    cases right with
    | int n => exact congrArg some (hint m.toInt n.toInt)
    | str t =>
      rw [order?, order?, Option.map_map]
      exact congrArg (Option.map · _) (funext fun n => hint m.toInt n.toInt)
    | bool | container => rfl
  | str s =>
    cases right with
    | int n =>
      rw [order?, order?, Option.map_map]
      exact congrArg (Option.map · _) (funext fun m => hint m.toInt n.toInt)
    | str t => exact congrArg some (Text.compareText_swap s t).symm
    | bool | container => rfl
  | bool | container => cases right <;> rfl

/-- What is read off the order can be read off the order of the operands turned round. -/
theorem map_order?_swap {read back : Ordering → Bool} (h : ∀ order, read order.swap = back order)
    (left right : Value) : (order? right left).map read = (order? left right).map back := by
  rw [order?_swap left right, Option.map_map]
  exact congrArg (Option.map · _) (funext h)

/-- Where there is an order, equality reads it. -/
theorem equal?_of_order? {left right : Value} {order : Ordering}
    (h : order? left right = some order) : equal? left right = some (order == .eq) := by
  have hequal := congrArg (Option.map (· == .eq)) h
  -- no boolean has a place in the order, so the cases of their own do not arise
  cases left with
  | int m => cases right <;> exact hequal
  | str s =>
    cases right with
    | int | str | container => exact hequal
    | bool => cases h
  | bool b => cases right <;> cases h
  | container scope => cases right <;> cases h

theorem equal?_swap (left right : Value) : equal? right left = equal? left right := by
  have hread (b : Bool) (s : String) :
      (readBool? s).map (· == b) = (readBool? s).map (b == ·) :=
    congrArg (Option.map · _) (funext fun c => Bool.beq_comm)
  have horder : (order? right left).map (· == .eq) = (order? left right).map (· == .eq) :=
    map_order?_swap (fun order => by cases order <;> rfl) left right
  cases left with
  | int m => cases right <;> exact horder
  | str s =>
    cases right with
    | int | str | container => exact horder
    | bool b => exact (hread b s).symm
  | bool b =>
    cases right with
    | bool c => exact congrArg some Bool.beq_comm
    | str s => exact hread b s
    | int | container => rfl
  | container scope => cases right <;> rfl

def relation? (op : String) (left right : Value) : Option Bool :=
  match op with
  | "==" => equal? left right
  | "!=" => (equal? left right).map (!·)
  | "<" => (order? left right).map (· == .lt)
  | ">" => (order? left right).map (· == .gt)
  | "<=" => (order? left right).map (· != .gt)
  | ">=" => (order? left right).map (· != .lt)
  | _ => none

/-- The six operators ask six questions of one order and one equality. -/
theorem relate_eq (op : String) (left right : Value) (pos : Position) :
    relate op left right pos =
      match relation? op left right with
      | some answer => .ok (.bool answer)
      | none => .error (mismatch op left right pos) := by
  unfold relate equality comparison
  split
  case h_1 | h_2 =>
    unfold relation?
    cases equal? left right <;> rfl
  case h_7 => simp [relation?, *]
  all_goals
    unfold relation?
    cases order? left right <;> rfl

theorem says_iff {op : String} {left right : Value} {pos : Position} {answer : Bool} :
    Says op left right pos answer ↔ relation? op left right = some answer := by
  rw [Says, relate_eq]
  cases relation? op left right with
  | none => simp
  | some given => simp

theorem refuses_of_none {op : String} {left right : Value} (pos : Position)
    (h : relation? op left right = none) : Refuses op left right pos := by
  rw [Refuses, relate_eq, h]

/-- The operator that asks the same of the operands in the other order. -/
def turned (op : String) : String :=
  match op with
  | "<" => ">"
  | ">" => "<"
  | "<=" => ">="
  | ">=" => "<="
  | op => op

/-- Exchanging the operands and turning the operator changes nothing. -/
theorem relation?_turned (op : String) (left right : Value) :
    relation? (turned op) right left = relation? op left right := by
  conv_rhs => unfold relation?
  split
  case h_1 => exact equal?_swap left right
  case h_2 => exact congrArg (Option.map (!·)) (equal?_swap left right)
  case h_7 => simp [turned, relation?, *]
  all_goals
    apply map_order?_swap
    intro order
    cases order <;> rfl

section

variable (left right : Value) (pos : Position)

theorem equality_says_or_refuses :
    (∃ same, Says "==" left right pos same ∧ Says "!=" left right pos !same) ∨
      Refuses "==" left right pos ∧ Refuses "!=" left right pos := by
  cases h : equal? left right with
  | none =>
    have hnot : relation? "!=" left right = none := congrArg (Option.map (!·)) h
    exact .inr ⟨refuses_of_none pos h, refuses_of_none pos hnot⟩
  | some same =>
    have hnot : relation? "!=" left right = some !same := congrArg (Option.map (!·)) h
    exact .inl ⟨same, says_iff.2 h, says_iff.2 hnot⟩

/-- Where one of the ordering operators answers, all do and fit together. -/
theorem order_says_or_refuses :
    (∃ less same greater, Says "<" left right pos less ∧ Says "==" left right pos same ∧
        Says ">" left right pos greater ∧ Says "<=" left right pos (less || same) ∧
        Says ">=" left right pos (greater || same) ∧ [less, same, greater].count true = 1) ∨
      Refuses "<" left right pos ∧ Refuses ">" left right pos ∧
        Refuses "<=" left right pos ∧ Refuses ">=" left right pos := by
  cases h : order? left right with
  | none =>
    have hnone {op : String} {read : Ordering → Bool}
        (hop : relation? op left right = (order? left right).map read) :
        Refuses op left right pos :=
      refuses_of_none pos (hop.trans (congrArg (Option.map read) h))
    exact .inr ⟨hnone rfl, hnone rfl, hnone rfl, hnone rfl⟩
  | some order =>
    have hsays (op : String) (read : Ordering → Bool)
        (hop : relation? op left right = (order? left right).map read) :
        Says op left right pos (read order) :=
      says_iff.2 (hop.trans (congrArg (Option.map read) h))
    have hsame : Says "==" left right pos (order == .eq) := says_iff.2 (equal?_of_order? h)
    have hatMost : (order != .gt) = (order == .lt || order == .eq) := by cases order <;> rfl
    have hatLeast : (order != .lt) = (order == .gt || order == .eq) := by cases order <;> rfl
    refine .inl ⟨order == .lt, order == .eq, order == .gt, ?_, hsame, ?_, ?_, ?_, ?_⟩
    · exact hsays "<" (· == .lt) rfl
    · exact hsays ">" (· == .gt) rfl
    · rw [← hatMost]
      exact hsays "<=" (· != .gt) rfl
    · rw [← hatLeast]
      exact hsays ">=" (· != .lt) rfl
    · cases order <;> rfl

end

theorem says_decide_iff {op : String} {left right : Value} {pos : Position} {p : Prop}
    [Decidable p] (h : Says op left right pos (decide p)) : p ↔ Says op left right pos true := by
  rw [says_iff] at h ⊢
  simp [h]

theorem says_int (m n : Int64) (pos : Position) :
    Says "<" (.int m) (.int n) pos (decide (m.toInt < n.toInt)) := by
  have hless : (compare m.toInt n.toInt == .lt) = decide (m.toInt < n.toInt) := by
    rw [Bool.eq_iff_iff, beq_iff_eq, decide_eq_true_iff, Int.compare_eq_lt]
  exact says_iff.2 (congrArg some hless)

theorem says_str (s t : String) (pos : Position) :
    Says "<" (.str s) (.str t) pos (decide (Text.bytes s < Text.bytes t)) := by
  have hless : (Text.compareText s t == .lt) = decide (Text.bytes s < Text.bytes t) := by
    rw [Bool.eq_iff_iff, beq_iff_eq, decide_eq_true_iff]
    exact Text.compareBytes_eq_lt_iff
  exact says_iff.2 (congrArg some hless)

/-- Integers are ordered by size. -/
theorem isStrictTotalOrder_int (pos : Position) :
    IsStrictTotalOrder Int64 fun m n => Says "<" (.int m) (.int n) pos true := by
  have hinj : Function.Injective Int64.toInt := fun _ _ => Int64.toInt_inj.1
  exact RelEmbedding.isStrictTotalOrder (s := fun m n : Int => m < n)
    ⟨⟨Int64.toInt, hinj⟩, says_decide_iff (says_int _ _ pos)⟩

/-- Texts are ordered by their bytes, and different texts have different bytes. -/
theorem isStrictTotalOrder_str (pos : Position) :
    IsStrictTotalOrder String fun s t => Says "<" (.str s) (.str t) pos true := by
  have hbytes : IsStrictTotalOrder (List UInt8) (· < ·) := {}
  exact RelEmbedding.isStrictTotalOrder (s := fun a b : List UInt8 => a < b)
    ⟨⟨Text.bytes, Text.bytes_injective⟩, says_decide_iff (says_str _ _ pos)⟩

/-- Equality and inequality apply to the same values and are each other's negation. The four others
apply to the same values, equality among them, and say which one of less, equal and greater holds.
Turning an operator with its operands changes nothing. Integers are ordered by size, texts by their
bytes. -/
theorem relations_are_coherent (left right : Value) (pos : Position) :
    ((∃ same, Says "==" left right pos same ∧ Says "!=" left right pos !same) ∨
      Refuses "==" left right pos ∧ Refuses "!=" left right pos) ∧
    ((∃ less same greater, Says "<" left right pos less ∧ Says "==" left right pos same ∧
        Says ">" left right pos greater ∧ Says "<=" left right pos (less || same) ∧
        Says ">=" left right pos (greater || same) ∧ [less, same, greater].count true = 1) ∨
      Refuses "<" left right pos ∧ Refuses ">" left right pos ∧
        Refuses "<=" left right pos ∧ Refuses ">=" left right pos) ∧
    (∀ op answer, Says op left right pos answer ↔ Says (turned op) right left pos answer) ∧
    (∀ m n : Int64, Says "<" (.int m) (.int n) pos (decide (m.toInt < n.toInt))) ∧
    (IsStrictTotalOrder Int64 fun m n => Says "<" (.int m) (.int n) pos true) ∧
    (∀ s t : String, Says "<" (.str s) (.str t) pos (decide (Text.bytes s < Text.bytes t))) ∧
    IsStrictTotalOrder String fun s t => Says "<" (.str s) (.str t) pos true := by
  refine ⟨equality_says_or_refuses left right pos, order_says_or_refuses left right pos, ?_,
    (says_int · · pos), isStrictTotalOrder_int pos, (says_str · · pos), isStrictTotalOrder_str pos⟩
  intro op answer
  rw [says_iff, says_iff, relation?_turned]

/-- A text is compared as the integer that it spells with integers only. -/
example (pos : Position) : Says "<" (.str "9") (.int 10) pos true ∧
    Says "<" (.str "9") (.str "10") pos false ∧ Says "==" (.str "true") (.bool true) pos true ∧
    Refuses "<" (.str "true") (.bool true) pos := ⟨rfl, rfl, rfl, rfl⟩

end Value
end PageTemplate
