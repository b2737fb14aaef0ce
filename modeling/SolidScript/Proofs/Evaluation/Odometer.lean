import Mathlib.Algebra.Order.Ring.Nat
import SolidScript.Evaluation.Statement

/-!
# Loops by number

The combinations that a loop steps through, numbered from the first one on. To step from one to the
next is to count: the indices of combination number `i` are the digits of `i` in the mixed base of
the sizes.
-/

namespace SolidScript

open List Nat

/-- How many combinations there are. -/
def tupleCount : List Nat → Nat
  | [] => 1
  | n :: sizes => n * tupleCount sizes

/-- The indices of combination number `i`: its digits in the mixed base of the sizes. -/
def tupleAt : List Nat → Nat → List Nat
  | [], _ => []
  | _ :: sizes, i => (i / tupleCount sizes) :: tupleAt sizes (i % tupleCount sizes)

/-- All combinations in order. -/
def tuples (sizes : List Nat) : List Cursor := (range (tupleCount sizes)).map (tupleAt sizes)

namespace LoopRange

def count (vars : LoopRange) : Nat := tupleCount vars.sizes

/-- The bindings of combination number `i`. -/
def bindings (vars : LoopRange) (i : Nat) : List (String × Value) :=
  vars.valuesAt (tupleAt vars.sizes i)

end LoopRange

namespace Stream

variable {σ ε α β γ : Type}

/-- Streams for the elements of a list, in order. -/
def each (body : β → Stream σ ε α) : List β → Stream σ ε α
  | [] => .empty
  | b :: bs => fun s => (body b s).andThen (each body bs)

lemma each_map (body : γ → Stream σ ε α) (f : β → γ) (bs : List β) :
    each body (bs.map f) = each (body ∘ f) bs := by
  induction bs with
  | nil => rfl
  | cons b bs ih =>
    rw [map_cons, each, ih]
    rfl

/-- Streams for `n` indices in order, from index `i`. -/
def loop (body : Nat → Stream σ ε α) : (n i : Nat) → Stream σ ε α
  | 0, _ => .empty
  | n + 1, i => fun s => (body i s).andThen (loop body n (i + 1))

lemma loop_succ (body : Nat → Stream σ ε α) (n i : Nat) :
    loop body (n + 1) i = fun s => (body i s).andThen (loop body n (i + 1)) := rfl

lemma loop_eq_each (body : Nat → Stream σ ε α) (n i : Nat) :
    loop body n i = each body (range' i n) := by
  induction n generalizing i with
  | zero => rfl
  | succ n ih => rw [loop, ih, range'_succ, each]

end Stream

section

variable {n q r i : Nat} {sizes : List Nat}

lemma length_tuples (sizes : List Nat) : (tuples sizes).length = tupleCount sizes := by
  rw [tuples, length_map, length_range]

lemma getElem?_tuples (sizes : List Nat) (i : Nat) :
    (tuples sizes)[i]? = if i < tupleCount sizes then some (tupleAt sizes i) else none := by
  rw [tuples, getElem?_map]
  split
  · rename_i hi
    rw [getElem?_range hi, Option.map_some]
  · rename_i hi
    rw [getElem?_eq_none (by rw [length_range]; omega), Option.map_none]

/-- A number has a first digit, and the others are those of what is left. -/
lemma exists_digits (hi : i < tupleCount (n :: sizes)) :
    ∃ q r, q < n ∧ r < tupleCount sizes ∧ i = q * tupleCount sizes + r := by
  have hi' : i < n * tupleCount sizes := hi
  have hpos : 0 < tupleCount sizes := Nat.pos_of_mul_pos_left (Nat.zero_lt_of_lt hi')
  refine ⟨i / tupleCount sizes, i % tupleCount sizes, ?_, Nat.mod_lt _ hpos, ?_⟩
  · exact Nat.div_lt_of_lt_mul (Nat.mul_comm _ _ ▸ hi')
  · rw [Nat.mul_comm]
    exact (Nat.div_add_mod _ _).symm

lemma digits_lt (hq : q < n) (hr : r < tupleCount sizes) :
    q * tupleCount sizes + r < tupleCount (n :: sizes) := by
  calc q * tupleCount sizes + r
    _ < q * tupleCount sizes + tupleCount sizes := Nat.add_lt_add_left hr _
    _ = (q + 1) * tupleCount sizes := (Nat.succ_mul _ _).symm
    _ ≤ n * tupleCount sizes := Nat.mul_le_mul_right _ hq

lemma tupleAt_digits (hr : r < tupleCount sizes) (n q : Nat) :
    tupleAt (n :: sizes) (q * tupleCount sizes + r) = q :: tupleAt sizes r := by
  have hpos := zero_lt_of_lt hr
  rw [tupleAt, mul_comm q, mul_add_div hpos, div_eq_of_lt hr, add_zero,
    mul_add_mod, mod_eq_of_lt hr]

lemma tupleAt_zero (sizes : List Nat) : tupleAt sizes 0 = sizes.map fun _ => 0 := by
  induction sizes with
  | nil => rfl
  | cons n sizes ih => rw [tupleAt, Nat.zero_div, Nat.zero_mod, ih, map_cons]

lemma tupleCount_pos_iff : 0 < tupleCount sizes ↔ 0 ∉ sizes := by
  induction sizes with
  | nil => simp [tupleCount]
  | cons n sizes ih =>
    rw [tupleCount, mem_cons, not_or, ← ih, pos_iff_ne_zero, pos_iff_ne_zero,
      mul_ne_zero_iff]
    exact and_congr_left fun _ => ne_comm

lemma tupleCount_eq_prod (sizes : List Nat) : tupleCount sizes = sizes.prod := by
  induction sizes with
  | nil => rfl
  | cons n sizes ih => rw [tupleCount, ih, prod_cons]

lemma mem_tuples_iff_exists {t : Cursor} :
    t ∈ tuples sizes ↔ ∃ i < tupleCount sizes, tupleAt sizes i = t := by
  simp only [tuples, mem_map, mem_range]

/-- The combinations are those of indices below the sizes. -/
lemma mem_tuples {t : Cursor} : t ∈ tuples sizes ↔ Forall₂ (· < ·) t sizes := by
  induction sizes generalizing t with
  | nil =>
    rw [mem_tuples_iff_exists]
    constructor
    · rintro ⟨i, -, rfl⟩
      exact .nil
    · rintro ⟨⟩
      exact ⟨0, zero_lt_one, rfl⟩
  | cons n sizes ih =>
    rw [mem_tuples_iff_exists]
    constructor
    · rintro ⟨i, hi, rfl⟩
      obtain ⟨q, r, hq, hr, rfl⟩ := exists_digits hi
      rw [tupleAt_digits hr]
      exact .cons hq (ih.mp (mem_tuples_iff_exists.mpr ⟨r, hr, rfl⟩))
    · intro h
      cases h with
      | @cons q _ t _ hq ht =>
        obtain ⟨r, hr, rfl⟩ := mem_tuples_iff_exists.mp (ih.mpr ht)
        exact ⟨q * tupleCount sizes + r, digits_lt hq hr, tupleAt_digits hr n q⟩

/-- Greater numbers stand for combinations further on in lexicographic order. -/
lemma tupleAt_lt_tupleAt {j : Nat} (hij : i < j) (hj : j < tupleCount sizes) :
    tupleAt sizes i < tupleAt sizes j := by
  induction sizes generalizing i j with
  | nil => exact absurd (lt_one_iff.mp hj) (ne_zero_of_lt hij)
  | cons n sizes ih =>
    obtain ⟨q, r, -, hr, rfl⟩ := exists_digits (lt_trans hij hj)
    obtain ⟨q', r', -, hr', rfl⟩ := exists_digits hj
    rw [tupleAt_digits hr, tupleAt_digits hr', cons_lt_cons_iff]
    rcases lt_trichotomy q q' with hq | rfl | hq
    · exact .inl hq
    · exact .inr ⟨rfl, ih (lt_of_add_lt_add_left hij) hr'⟩
    · have hback : q' * tupleCount sizes + r' < q * tupleCount sizes := digits_lt hq hr'
      omega

lemma pairwise_tuples (sizes : List Nat) : (tuples sizes).Pairwise (· < ·) := by
  rw [tuples, pairwise_map]
  refine pairwise_lt_range.imp_of_mem fun _ hj hij => ?_
  exact tupleAt_lt_tupleAt hij (mem_range.mp hj)

end

namespace Cursor

variable {sizes : List Nat} {i : Nat}

/-- To advance is to count. Behind the last combination stands the first one again. -/
lemma advance_tupleAt (hi : i < tupleCount sizes) :
    advance sizes (tupleAt sizes i) =
      (decide (i + 1 < tupleCount sizes), tupleAt sizes ((i + 1) % tupleCount sizes)) := by
  induction sizes generalizing i with
  | nil =>
    obtain rfl : i = 0 := lt_one_iff.mp hi
    rfl
  | cons n sizes ih =>
    obtain ⟨q, r, hq, hr, rfl⟩ := exists_digits hi
    rw [tupleAt_digits hr, advance, ih hr]
    by_cases hinner : r + 1 < tupleCount sizes
    · -- no carry: the first digit stays
      have hnext := digits_lt hq hinner
      rw [decide_eq_true hinner, mod_eq_of_lt hinner, add_assoc, decide_eq_true hnext,
        mod_eq_of_lt hnext, tupleAt_digits hinner]
    · have hpos := zero_lt_of_lt hr
      have hcarry : q * tupleCount sizes + r + 1 = (q + 1) * tupleCount sizes + 0 := by
        rw [succ_mul]
        omega
      have hr' : r + 1 = tupleCount sizes := by omega
      rw [decide_eq_false hinner, hcarry, hr', mod_self]
      dsimp only
      split
      · rename_i hq'
        have hnext := digits_lt hq' hpos
        rw [decide_eq_true hnext, mod_eq_of_lt hnext, tupleAt_digits hpos]
      · have hn : (q + 1) * tupleCount sizes + 0 = tupleCount (n :: sizes) := by
          rw [tupleCount, show q + 1 = n by omega, add_zero]
        rw [hn, decide_eq_false (lt_irrefl _), mod_self, tupleAt_zero,
          tupleAt_zero, map_cons]

lemma first?_eq (sizes : List Nat) : first? sizes = (tuples sizes)[0]? := by
  rw [getElem?_tuples, first?, tupleAt_zero]
  simp only [tupleCount_pos_iff, ite_not]

/-- The combination behind number `i` is the one with the next number. -/
lemma next?_tupleAt (hi : i < tupleCount sizes) :
    next? sizes (tupleAt sizes i) = (tuples sizes)[i + 1]? := by
  rw [getElem?_tuples, next?, advance_tupleAt hi]
  by_cases hnext : i + 1 < tupleCount sizes
  · rw [decide_eq_true hnext, mod_eq_of_lt hnext, if_pos hnext]
  · rw [decide_eq_false hnext, if_neg hnext]

/-- Where a cursor is after a number of steps, until it has been everywhere. -/
def after (sizes : List Nat) : Nat → Option Cursor
  | 0 => first? sizes
  | k + 1 => (after sizes k).bind (next? sizes)

lemma after_eq (sizes : List Nat) (k : Nat) : after sizes k = (tuples sizes)[k]? := by
  induction k with
  | zero => exact first?_eq sizes
  | succ k ih =>
    rw [after, ih]
    by_cases hk : k < tupleCount sizes
    · rw [getElem?_tuples, if_pos hk, Option.bind_some, next?_tupleAt hk]
    · rw [getElem?_tuples, if_neg hk, Option.bind_none, getElem?_tuples, if_neg (by omega)]

end Cursor

namespace Stream

variable {σ ε α : Type} (sizes : List Nat) (body : Cursor → Stream σ ε α)

lemma combinations_some (cursor : Cursor) :
    combinations sizes body (some cursor) = fun s =>
      (body cursor s).andThen (combinations sizes body (Cursor.next? sizes cursor)) := by
  funext s
  rw [combinations]
  cases body cursor s <;> rfl

/-- From any combination on, a loop runs over the rest of them in order. -/
lemma combinations_eq_each_drop (n i : Nat) (hn : i + n = tupleCount sizes) :
    combinations sizes body (tuples sizes)[i]? = each body ((tuples sizes).drop i) := by
  induction n generalizing i with
  | zero =>
    have hlength : (tuples sizes).length ≤ i := by
      rw [length_tuples]
      exact le_of_eq hn.symm
    rw [getElem?_eq_none hlength, drop_eq_nil_of_le hlength]
    funext s
    rw [combinations]
    rfl
  | succ n ih =>
    have hi : i < tupleCount sizes := by omega
    have hcursor : (tuples sizes)[i]? = some (tupleAt sizes i) := by rw [getElem?_tuples, if_pos hi]
    obtain ⟨hlt, hget⟩ := List.getElem?_eq_some_iff.mp hcursor
    rw [hcursor, combinations_some, Cursor.next?_tupleAt hi, ih (i + 1) (by omega),
      drop_eq_getElem_cons hlt, hget, each]

/-- A loop runs over all combinations in the order of their numbers. -/
lemma combinations_eq_each : combinations sizes body (Cursor.first? sizes) =
    each body (tuples sizes) := by
  rw [Cursor.first?_eq, combinations_eq_each_drop sizes body (tupleCount sizes) 0 (zero_add _),
    drop_zero]

end Stream

/-- A loop of a program, by the numbers of its rounds. -/
lemma Statement.build_loop (env : Environment) (call : CallFunction) (enter : EnterModule)
    (ask : AskChildren) (offers : List Offer) (frame : FrameId) (pos : Position)
    (bindings : List Binding) (body : Program) :
    Statement.build env call enter ask offers frame (.loop pos bindings body) =
      Eval.build (Binding.evalAll call frame bindings) fun vars =>
        Stream.loop
          (fun i => inBlock frame fun inner =>
            Eval.build (Eval.write inner (.values (vars.bindings i))) fun _ =>
              Statement.buildAll env call enter ask offers inner body)
          vars.count 0 := by
  rw [Statement.build]
  congr 1
  funext vars
  rw [Stream.combinations_eq_each, Stream.loop_eq_each, tuples, Stream.each_map, ← range_eq_range']
  rfl

end SolidScript
