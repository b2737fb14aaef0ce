import Mathlib.Data.List.Basic
import Mathlib.Tactic.Common
import SolidScript.Value.Arithmetic

/-!
# Arithmetic follows the form of its operands

The form of a value tells its kind, and for a vector the forms of its elements. Whether an
arithmetic operation is defined is a matter of the forms: the operations can be carried out on forms
alone, and the form of a result is the result of the forms. On vectors an operation is defined if it
is on all pairs of elements that are not cut off, and then the result is the vector of their
results.
-/

namespace SolidScript

open List Option

/-- The kind of a value, and for a vector the forms of its elements. -/
inductive Form where
  | undefined
  | bool
  | number
  | string
  | range
  | vector (items : List Form)

/-- Only numbers, at whatever depth of vectors. -/
inductive Form.Numeric : Form → Prop
  | number : Numeric number
  | vector {items : List Form} (h : ∀ f ∈ items, Numeric f) : Numeric (vector items)

namespace Value

mutual

def form : Value → Form
  | undefined => .undefined
  | bool _ => .bool
  | number _ => .number
  | string _ => .string
  | vector items => .vector (forms items)
  | range _ => .range

def forms : List Value → List Form
  | [] => []
  | v :: vs => form v :: forms vs

end

end Value

/-! ## Operations on forms -/

namespace Form

/-- Numbers only, and equally many. -/
def pairsNumbers : List Form → List Form → Bool
  | [], [] => true
  | number :: fs, number :: gs => pairsNumbers fs gs
  | _, _ => false

mutual

/-- The form that a number and something of a form combine to. -/
def scale? (op : Arithmetic) : Form → Option Form
  | number => some number
  | vector items => if op = .mul ∨ op = .div then (scaleAll? op items).map vector else none
  | _ => none

def scaleAll? (op : Arithmetic) : List Form → Option (List Form)
  | [] => some []
  | f :: fs => do
    let g ← scale? op f
    let gs ← scaleAll? op fs
    some (g :: gs)

end

mutual

/-- The form of the result of an operation, where it is defined. -/
def binary? (op : Arithmetic) : Form → Form → Option Form
  | number, g => scale? op g
  | f, number => scale? op f
  | vector fs, vector gs =>
    match op with
    | .add => (zipAll? op fs gs).map vector
    | .sub => (zipAll? op fs gs).map vector
    | .mul => if pairsNumbers fs gs then some number else none
    | _ => none
  | _, _ => none

def zipAll? (op : Arithmetic) : List Form → List Form → Option (List Form)
  | f :: fs, g :: gs => do
    let h ← binary? op f g
    let hs ← zipAll? op fs gs
    some (h :: hs)
  | _, _ => some []

end

mutual

lemma Numeric.of_scale? (op : Arithmetic) : ∀ {f g : Form}, scale? op f = some g → g.Numeric
  | .number, _, h => by
    rw [scale?] at h
    cases h
    exact .number
  | .vector fs, g, h => by
    rw [scale?] at h
    split at h
    · obtain ⟨gs, hgs, rfl⟩ := map_eq_some_iff.mp h
      exact .vector (Numeric.of_scaleAll? op hgs)
    · cases h

lemma Numeric.of_scaleAll? (op : Arithmetic) :
    ∀ {fs gs : List Form}, scaleAll? op fs = some gs → ∀ g ∈ gs, g.Numeric
  | [], _, h => by
    rw [scaleAll?] at h
    cases h
    exact forall_mem_nil _
  | f :: fs, _, h => by
    rw [scaleAll?] at h
    obtain ⟨g, hg, h⟩ := bind_eq_some_iff.mp h
    obtain ⟨gs, hgs, h⟩ := bind_eq_some_iff.mp h
    cases h
    exact forall_mem_cons.mpr ⟨Numeric.of_scale? op hg, Numeric.of_scaleAll? op hgs⟩

end

mutual

lemma Numeric.of_binary? (op : Arithmetic) : ∀ {f g h : Form}, binary? op f g = some h → h.Numeric
  | .number, g, h, heq => .of_scale? op (by rwa [binary?] at heq)
  | .vector fs, .number, h, heq => .of_scale? op (by rwa [binary?.eq_def] at heq)
  | .vector fs, .vector gs, h, heq => by
    rw [binary?.eq_def] at heq
    cases op with
    | add | sub =>
      obtain ⟨hs, hhs, rfl⟩ := map_eq_some_iff.mp heq
      exact .vector (Numeric.of_zipAll? _ hhs)
    | mul =>
      dsimp only at heq
      split at heq
      · cases heq
        exact .number
      · cases heq
    | div | mod | pow => cases heq
  | .undefined, g, _, heq | .bool, g, _, heq | .string, g, _, heq | .range, g, _, heq => by
    cases g <;> cases heq

lemma Numeric.of_zipAll? (op : Arithmetic) :
    ∀ {fs gs hs : List Form}, zipAll? op fs gs = some hs → ∀ h ∈ hs, h.Numeric
  | f :: fs, g :: gs, _, heq => by
    rw [zipAll?] at heq
    obtain ⟨h, hh, heq⟩ := bind_eq_some_iff.mp heq
    obtain ⟨hs, hhs, heq⟩ := bind_eq_some_iff.mp heq
    cases heq
    exact forall_mem_cons.mpr ⟨Numeric.of_binary? op hh, Numeric.of_zipAll? op hhs⟩
  | [], _, _, heq | _ :: _, [], _, heq => by
    cases heq
    exact forall_mem_nil _

end

end Form

namespace Value

lemma scaleLeftAll?_eq_mapM (op : Arithmetic) (a : Float) (vs : List Value) :
    scaleLeftAll? op a vs = (vs.map (scaleLeft? op a)).mapM id := by
  induction vs with
  | nil => rfl
  | cons v vs ih =>
    rw [scaleLeftAll?, ih, map_cons, mapM_cons]
    rfl

lemma scaleRightAll?_eq_mapM (op : Arithmetic) (b : Float) (vs : List Value) :
    scaleRightAll? op b vs = (vs.map (scaleRight? op b)).mapM id := by
  induction vs with
  | nil => rfl
  | cons v vs ih =>
    rw [scaleRightAll?, ih, map_cons, mapM_cons]
    rfl

/-- What a number does to the elements of a vector, it does to their forms. -/
lemma forms_mapM {op : Arithmetic} (f : Value → Option Value) (vs : List Value)
    (h : ∀ v ∈ vs, (f v).map form = v.form.scale? op) :
    ((vs.map f).mapM id).map forms = Form.scaleAll? op (forms vs) := by
  induction vs with
  | nil => rfl
  | cons v vs ih =>
    obtain ⟨hv, hvs⟩ := forall_mem_cons.mp h
    rw [forms, Form.scaleAll?, ← hv, ← ih hvs, map_cons, mapM_cons]
    cases f v <;> cases (vs.map f).mapM id <;> rfl

lemma form_scaleLeft? (op : Arithmetic) (a : Float) :
    ∀ v, (scaleLeft? op a v).map form = v.form.scale? op
  | undefined | bool _ | number _ | string _ | range _ => rfl
  | vector items => by
    rw [scaleLeft?, form, Form.scale?, scaleLeftAll?_eq_mapM, ← forms_mapM _ items
      fun v _ => form_scaleLeft? op a v]
    split
    · rw [Option.map_map, Option.map_map]
      rfl
    · rfl

lemma form_scaleRight? (op : Arithmetic) (b : Float) :
    ∀ v, (scaleRight? op b v).map form = v.form.scale? op
  | undefined | bool _ | number _ | string _ | range _ => rfl
  | vector items => by
    rw [scaleRight?, form, Form.scale?, scaleRightAll?_eq_mapM, ← forms_mapM _ items
      fun v _ => form_scaleRight? op b v]
    split
    · rw [Option.map_map, Option.map_map]
      rfl
    · rfl

/-- An inner product needs numbers only, and equally many of them. -/
lemma innerProduct?_eq_some_iff {as bs : List Value} {acc s : Float} :
    innerProduct? acc as bs = some s ↔
      ∃ xs ys : List Float, as = xs.map number ∧ bs = ys.map number ∧ xs.length = ys.length ∧
        s = (xs.zip ys).foldl (fun acc (x, y) => acc + x * y) acc := by
  fun_induction innerProduct? acc as bs with
  | case1 acc =>
    constructor
    · rintro ⟨⟩
      exact ⟨[], [], rfl, rfl, rfl, rfl⟩
    · rintro ⟨xs, ys, hxs, hys, -, rfl⟩
      obtain rfl := map_eq_nil_iff.mp hxs.symm
      rfl
  | case2 acc x xs y ys ih =>
    rw [ih]
    constructor
    · rintro ⟨xs, ys, rfl, rfl, hlength, rfl⟩
      exact ⟨x :: xs, y :: ys, rfl, rfl, congrArg (· + 1) hlength, rfl⟩
    · rintro ⟨xs', ys', hxs, hys, hlength, rfl⟩
      obtain ⟨x', xs', rfl, hx, rfl⟩ := map_eq_cons_iff.mp hxs.symm
      obtain ⟨y', ys', rfl, hy, rfl⟩ := map_eq_cons_iff.mp hys.symm
      cases hx
      cases hy
      exact ⟨xs', ys', rfl, rfl, Nat.succ.inj hlength, rfl⟩
  | case3 as acc bs hnil hcons =>
    constructor
    · rintro ⟨⟩
    · rintro ⟨xs, ys, rfl, rfl, hlength, -⟩
      cases xs with
      | nil =>
        obtain rfl := length_eq_zero_iff.mp hlength.symm
        exact (hnil rfl rfl).elim
      | cons x xs =>
        obtain ⟨y, ys, rfl⟩ := exists_cons_of_length_eq_add_one hlength.symm
        exact (hcons _ _ _ _ rfl rfl).elim

lemma isSome_innerProduct? (acc : Float) (as bs : List Value) :
    (innerProduct? acc as bs).isSome = Form.pairsNumbers (forms as) (forms bs) := by
  fun_induction innerProduct? acc as bs with
  | case1 => rfl
  | case2 acc x xs y ys ih => exact ih
  | case3 as acc bs hnil hcons =>
    symm
    cases as with
    | nil =>
      cases bs with
      | nil => exact (hnil rfl rfl).elim
      | cons b bs => rfl
    | cons a as =>
      cases bs with
      | nil => cases a <;> rfl
      | cons b bs =>
        cases a with
        | number x =>
          cases b with
          | number y => exact (hcons x as y bs rfl rfl).elim
          | _ => rfl
        | _ => rfl

mutual

/-- The form of a result is a matter of the forms of the operands. -/
lemma form_binary? (op : Arithmetic) :
    ∀ a b, (binary? op a b).map form = Form.binary? op a.form b.form
  | number a, b => by
    rw [binary?, form_scaleLeft?, form, Form.binary?]
  | vector as, number b => by
    rw [binary?.eq_def, form, form, Form.binary?.eq_def]
    exact form_scaleRight? op b (vector as)
  | vector as, vector bs => by
    rw [binary?.eq_def, form, form, Form.binary?.eq_def]
    cases op with
    | add | sub =>
      dsimp only
      rw [← forms_zipAll? _ as bs, Option.map_map, Option.map_map]
      rfl
    | mul =>
      dsimp only
      rw [← isSome_innerProduct? 0 as bs]
      cases innerProduct? 0 as bs <;> rfl
    | div | mod | pow => rfl
  | vector _, undefined | vector _, bool _ | vector _, string _ | vector _, range _ => rfl
  | undefined, b | bool _, b | string _, b | range _, b => by cases b <;> rfl

lemma forms_zipAll? (op : Arithmetic) :
    ∀ as bs, (zipAll? op as bs).map forms = Form.zipAll? op (forms as) (forms bs)
  | a :: as, b :: bs => by
    rw [zipAll?, forms, forms, Form.zipAll?, ← form_binary? op a b, ← forms_zipAll? op as bs]
    cases binary? op a b <;> cases zipAll? op as bs <;> rfl
  | [], _ => rfl
  | _ :: _, [] => rfl

end

/-! ## Vectors by their elements -/

/-- A vector of `n` elements, which are given one by one and are all defined. -/
def IsVectorOf (n : Nat) (element : Nat → Option Value) (v : Value) : Prop :=
  ∃ items, v = vector items ∧ items.length = n ∧ ∀ i < n, items[i]? = element i

/-- Results can be collected if they are all defined. -/
lemma mapM_id_eq_some_iff {α : Type} {results : List (Option α)} {items : List α} :
    results.mapM id = some items ↔ items.map some = results := by
  induction results generalizing items with
  | nil =>
    rw [mapM_nil, map_eq_nil_iff]
    exact ⟨fun h => (some.inj h).symm, fun h => congrArg some h.symm⟩
  | cons result results ih =>
    rw [mapM_cons, map_eq_cons_iff]
    constructor
    · intro h
      obtain ⟨item, hitem, h⟩ := bind_eq_some_iff.mp h
      obtain ⟨rest, hrest, h⟩ := bind_eq_some_iff.mp h
      cases h
      exact ⟨item, rest, rfl, hitem.symm, ih.mp hrest⟩
    · rintro ⟨item, rest, rfl, rfl, hrest⟩
      rw [ih.mpr hrest]
      rfl

lemma map_vector_mapM_id_eq_some_iff {results : List (Option Value)} {v : Value} :
    (results.mapM id).map vector = some v ↔
      IsVectorOf results.length (fun i => results[i]?.join) v := by
  rw [map_eq_some_iff]
  constructor
  · rintro ⟨items, hitems, rfl⟩
    obtain rfl := mapM_id_eq_some_iff.mp hitems
    refine ⟨items, rfl, (length_map _).symm, fun i hi => ?_⟩
    dsimp only
    rw [getElem?_map]
    cases items[i]? <;> rfl
  · rintro ⟨items, rfl, hlength, hget⟩
    refine ⟨items, mapM_id_eq_some_iff.mpr ?_, rfl⟩
    refine ext_getElem (by rw [length_map, hlength]) fun i hi hi' => ?_
    have hitem : items[i]? = results[i]?.join := hget i hi'
    rw [getElem?_eq_getElem (hlength ▸ hi'), getElem?_eq_getElem hi', join_some] at hitem
    rw [getElem_map, hitem]

lemma zipAll?_eq_mapM (op : Arithmetic) (as bs : List Value) :
    zipAll? op as bs = (zipWith (binary? op) as bs).mapM id := by
  induction as generalizing bs with
  | nil => rfl
  | cons a as ih =>
    cases bs with
    | nil => rfl
    | cons b bs =>
      rw [zipAll?, ih, zipWith_cons_cons, mapM_cons]
      rfl

lemma binary?_number_left (op : Arithmetic) (a : Float) (b : Value) :
    binary? op (number a) b = scaleLeft? op a b := by
  rw [binary?]

lemma binary?_number_right (op : Arithmetic) (a : Value) (b : Float) :
    binary? op a (number b) = scaleRight? op b a := by
  cases a <;> rfl

section

variable {op : Arithmetic} {v : Value}

/-- Sums and differences of vectors are those of their elements, up to the end of the shorter
one. -/
lemma binary?_vectors_iff (hop : op = .add ∨ op = .sub) (as bs : List Value) :
    binary? op (vector as) (vector bs) = some v ↔
      IsVectorOf (min as.length bs.length) (fun i => do binary? op (← as[i]?) (← bs[i]?)) v := by
  have hbinary : binary? op (vector as) (vector bs) = ((zipWith (binary? op) as bs).mapM id).map
      vector := by
    rw [← zipAll?_eq_mapM]
    rcases hop with rfl | rfl <;> rw [binary?.eq_def]
  have helement (i : Nat) :
      (zipWith (binary? op) as bs)[i]?.join = (do binary? op (← as[i]?) (← bs[i]?)) := by
    rw [getElem?_zipWith]
    cases as[i]? <;> cases bs[i]? <;> rfl
  simp only [hbinary, map_vector_mapM_id_eq_some_iff, length_zipWith, helement]

lemma map_vector_mapM_map_iff (f : Value → Option Value) (vs : List Value) :
    ((vs.map f).mapM id).map vector = some v ↔
      IsVectorOf vs.length (fun i => do f (← vs[i]?)) v := by
  have helement (i : Nat) : (vs.map f)[i]?.join = (do f (← vs[i]?)) := by
    rw [getElem?_map]
    cases vs[i]? <;> rfl
  simp only [map_vector_mapM_id_eq_some_iff, length_map, helement]

/-- Products and quotients of a vector and a number are those of its elements. -/
lemma binary?_vector_number_iff (hop : op = .mul ∨ op = .div) (as : List Value) (b : Float) :
    binary? op (vector as) (number b) = some v ↔
      IsVectorOf as.length (fun i => do binary? op (← as[i]?) (number b)) v := by
  simp only [binary?_number_right]
  rw [scaleRight?, if_pos hop, scaleRightAll?_eq_mapM, map_vector_mapM_map_iff]

lemma binary?_number_vector_iff (hop : op = .mul ∨ op = .div) (a : Float) (bs : List Value) :
    binary? op (number a) (vector bs) = some v ↔
      IsVectorOf bs.length (fun i => do binary? op (number a) (← bs[i]?)) v := by
  simp only [binary?_number_left]
  rw [scaleLeft?, if_pos hop, scaleLeftAll?_eq_mapM, map_vector_mapM_map_iff]

end

/-- The product of two vectors is defined for numbers only, and equally many. -/
lemma binary?_mul_vectors_iff (as bs : List Value) (v : Value) :
    binary? .mul (vector as) (vector bs) = some v ↔
      ∃ xs ys : List Float, as = xs.map number ∧ bs = ys.map number ∧ xs.length = ys.length ∧
        v = number ((xs.zip ys).foldl (fun acc (x, y) => acc + x * y) 0) := by
  rw [binary?.eq_def]
  dsimp only
  rw [map_eq_some_iff]
  simp only [innerProduct?_eq_some_iff]
  constructor
  · rintro ⟨_, ⟨xs, ys, has, hbs, hlength, rfl⟩, rfl⟩
    exact ⟨xs, ys, has, hbs, hlength, rfl⟩
  · rintro ⟨xs, ys, has, hbs, hlength, rfl⟩
    exact ⟨_, ⟨xs, ys, has, hbs, hlength, rfl⟩, rfl⟩

/-- **Arithmetic follows the form of its operands.** Whether an operation is defined, and then the
form of its result, is the same for operands of the same form. A result holds numbers only, at
whatever depth of vectors. Numbers combine by every operation. Sums and differences of two vectors,
and products and quotients of a vector and a number, are defined if and only if those of the
elements are, and are the vectors of these: as many as the shorter vector has for two of them, and
all of them for one. The product of two vectors is defined if and only if they hold numbers only and
equally many. -/
theorem arithmetic_shapeDirected :
    (∀ op a a' b b', a.form = a'.form → b.form = b'.form →
      (binary? op a b).isSome = (binary? op a' b').isSome ∧ (binary? op a b).map form =
      (binary? op a' b').map form) ∧
      (∀ op a b v, binary? op a b = some v → v.form.Numeric) ∧
      (∀ op a b, binary? op (number a) (number b) = some (number (op.apply a b))) ∧
      (∀ op, op = .add ∨ op = .sub → ∀ as bs v, binary? op (vector as) (vector bs) = some v ↔
        IsVectorOf (min as.length bs.length) (fun i => do binary? op (← as[i]?) (← bs[i]?)) v) ∧
      (∀ op, op = .mul ∨ op = .div → ∀ as b v, binary? op (vector as) (number b) = some v ↔
        IsVectorOf as.length (fun i => do binary? op (← as[i]?) (number b)) v) ∧
      (∀ op, op = .mul ∨ op = .div → ∀ a bs v, binary? op (number a) (vector bs) = some v ↔
        IsVectorOf bs.length (fun i => do binary? op (number a) (← bs[i]?)) v) ∧
      ∀ as bs v, binary? .mul (vector as) (vector bs) = some v ↔
        ∃ xs ys : List Float, as = xs.map number ∧ bs = ys.map number ∧ xs.length = ys.length ∧
          v = number ((xs.zip ys).foldl (fun acc (x, y) => acc + x * y) 0) := by
  refine ⟨fun op a a' b b' ha hb => ?_, fun op a b v h => ?_, fun op a b => rfl,
    fun op hop as bs v => binary?_vectors_iff hop as bs, fun op hop as b v =>
      binary?_vector_number_iff hop as b,
    fun op hop a bs v => binary?_number_vector_iff hop a bs, binary?_mul_vectors_iff⟩
  · have hforms : (binary? op a b).map form = (binary? op a' b').map form := by
      rw [form_binary?, form_binary?, ha, hb]
    refine ⟨?_, hforms⟩
    rw [← isSome_map (f := form), hforms, isSome_map]
  · refine .of_binary? op (f := a.form) (g := b.form) ?_
    rw [← form_binary?, h]
    rfl

/-- Rows of different lengths. -/
def ragged (x y z : Float) : Value := vector [vector [number x, number y], vector [number z]]

/-- Shorter and longer rows, and a text behind them. -/
def raggedText : Value :=
  vector [vector [number 10], vector [number 20, number 30], string "cut off"]

/-- The rows are added as far as both go, and the text is not looked at. -/
theorem arithmetic_shapeDirected_ragged :
    (ragged 1 2 3).form = (ragged 4 5 6).form ∧
      (binary? .add (ragged 1 2 3) raggedText).isSome =
      (binary? .add (ragged 4 5 6) raggedText).isSome ∧
      ∃ items, binary? .add (ragged 1 2 3) raggedText = some (vector items) ∧
      (vector items).form.Numeric ∧
        items.length = 2 ∧ items[0]? = some (vector [number (1 + 10)]) ∧
        items[1]? = binary? .add (vector [number 3]) (vector [number 20, number 30]) := by
  obtain ⟨hforms, hnumeric, -, hvectors, -⟩ := arithmetic_shapeDirected
  have hform (x y z : Float) : (ragged x y z).form =
      .vector [.vector [.number, .number], .vector [.number]] := rfl
  have hsame : (ragged 1 2 3).form = (ragged 4 5 6).form := (hform 1 2 3).trans (hform 4 5 6).symm
  obtain ⟨v, hsum⟩ :=
    isSome_iff_exists.mp (show (binary? .add (ragged 1 2 3) raggedText).isSome from rfl)
  obtain ⟨items, rfl, hlength, hget⟩ := (hvectors .add (.inl rfl) _ _ _).mp hsum
  exact ⟨hsame, (hforms .add _ _ _ _ hsame rfl).1, items, hsum, hnumeric _ _ _ _ hsum, hlength,
    hget 0 Nat.two_pos, hget 1 Nat.one_lt_two⟩

end Value

end SolidScript
