import SolidScript.Proofs.Machine.Rounds
import SolidScript.Proofs.Range.Length
import SolidScript.Proofs.Rounding.Arithmetic

/-!
# Collections and their elements

Vectors, strings and ranges have elements. A loop takes one after the other, an index picks one, and
a function counts them. All three mean the same elements, as long as the index is small enough to be
exact as a number.
-/

namespace SolidScript

open List

namespace Value

/-- A value that has elements. -/
inductive IsCollection : Value → Prop
  | vector (items : List Value) : IsCollection (.vector items)
  | string (s : String) : IsCollection (.string s)
  | range (r : Range Float) : IsCollection (.range r)

namespace IsCollection

variable {v : Value} (hv : v.IsCollection)

include hv

lemma length?_eq : v.length? = some v.elements.length := by
  cases hv with
  | vector | range => simp [length?, elements]
  | string s => rw [length?, elements, length_map, String.length_toList]

lemma get?_eq (i : ℕ) : v.get? i = v.elements[i]? := by
  cases hv with
  | vector items => rfl
  | string s => rw [get?, elements, getElem?_map]
  | range r =>
    rw [get?, Range.get?_eq, elements, getElem?_map, getElem?_map, Option.map_map]
    rfl

/-- An index picks an element, and is undefined behind the last one. -/
lemma indexValue_eq {i : ℕ} (hi : i < 2 ^ 53) (pos : Position) :
    indexValue v (.number (Float.ofNat i)) pos = pure (v.elements.getD i .undefined) := by
  have hindex : v.index? (.number (Float.ofNat i)) = v.elements[i]? := by
    rw [index?, if_pos (Exact.ofNat_nonneg i), Exact.floorCount_ofNat hi, hv.get?_eq]
  rw [indexValue, hindex, hv.length?_eq, getD_eq_getElem?_getD]
  cases v.elements[i]? <;> rfl

end IsCollection

end Value

/-- A loop with one variable has a round for each element. -/
lemma Context.run_loop_single (env : Environment) (ctx : Context) (pos : Position) (name : String)
    {domain : Expr} (body : Program) {w w' : World} {v : Value}
    (h : domain.eval (callFunction env (env.host.settings.maxDepth - w.depth)) ctx.frame
      (w.visit ctx.frame (.run (.loop pos [⟨name, domain⟩] body))) = .ok v w') :
    ctx.run env (.loop pos [⟨name, domain⟩] body) w =
      Stream.each (fun e => ctx.round env (env.host.settings.maxDepth - w.depth) body [(name, e)])
      v.elements w' := by
  have hall : [(⟨name, domain⟩ : Binding)].mapM
      (fun b => b.domain.eval (callFunction env (env.host.settings.maxDepth - w.depth)) ctx.frame)
      (w.visit ctx.frame (.run (.loop pos [⟨name, domain⟩] body))) = .ok [v] w' := by
    show EStateM.bind _ _ _ = _
    rw [EStateM.bind, h]
    rfl
  have helements : v.elements = (range v.elements.length).map fun i =>
      v.elements.getD i .undefined := by
    refine ext_getElem (by simp) fun i hi _ => ?_
    simp [getD_eq_getElem?_getD, hi]
  have htuples : tuples [v.elements.length] = (range v.elements.length).map fun i => [i] := by
    simp [tuples, tupleCount, tupleAt]
  rw [run_loop_of_ok env ctx pos body hall]
  show Stream.each _ (tuples [v.elements.length]) w' = _
  rw [htuples, helements, Stream.each_map, Stream.each_map, ← helements]
  rfl

/-- Looping, indexing and counting agree on every collection. A loop has one round for each element
in order, whatever the variables around it run over; an index below `2 ^ 53` picks the element at
that place, and is undefined without a report if there is none; and the length is how many elements
there are. The elements of a string are its characters. -/
theorem Value.elements_agree (v : Value) (hv : v.IsCollection) :
    v.length? = some v.elements.length ∧
      (∀ site args, args.positional = [v] → Builtin.len site args =
      pure (.number (Float.ofNat v.elements.length))) ∧
      (Domain.ofValue v).size = v.elements.length ∧
      (∀ i, (Domain.ofValue v).get i = v.elements.getD i .undefined) ∧
      (∀ (env : Environment) (ctx : Context) pos name (domain : Expr) body (w w' : World),
        let left := env.host.settings.maxDepth - w.depth
        let loop : Statement := .loop pos [⟨name, domain⟩] body
        domain.eval (callFunction env left) ctx.frame (w.visit ctx.frame (.run loop)) = .ok v w' →
          ctx.run env loop w = Stream.each (fun e => ctx.round env left body [(name, e)])
          v.elements w') ∧
      (∀ i < 2 ^ 53, ∀ call frame pos (target index : Expr) (w w' w'' : World),
      target.eval call frame w = .ok v w' →
        index.eval call frame w' = .ok (.number (Float.ofNat i)) w'' →
          (Expr.index pos target index).eval call frame w =
          .ok (v.elements.getD i .undefined) w'') ∧
      ∀ s, v = .string s → v.elements = s.toList.map fun c => .string (String.singleton c) := by
  refine ⟨hv.length?_eq, fun site args hargs => ?_, Domain.size_ofValue v, Domain.get_ofValue v,
    fun env ctx pos name domain body w w' h => ctx.run_loop_single env pos name body h,
    fun i hi call frame pos target index w w' w'' htarget hindex => ?_, fun s hs => hs ▸ rfl⟩
  · rw [Builtin.len, hargs]
    show Builtin.orWarn site args (v.length?.map _) = _
    rw [hv.length?_eq]
    rfl
  · rw [Expr.eval]
    show EStateM.bind _ _ w = _
    rw [EStateM.bind, htarget]
    show EStateM.bind _ _ w' = _
    rw [EStateM.bind, hindex]
    show indexValue v (.number (Float.ofNat i)) pos w'' = _
    rw [hv.indexValue_eq hi]
    rfl

/-- A text of two characters, one of which takes four bytes, indexed at its last character and
behind it. -/
theorem Value.elements_agree_text :
    let v : Value := .string "a𝄞"
    let at? (i : ℕ) : Expr := .index ⟨1, 1⟩ (.string ⟨1, 1⟩ "a𝄞") (.number ⟨1, 1⟩ (Float.ofNat i))
    v.IsCollection ∧ v.length? = some 2 ∧ v.elements = [.string "a", .string "𝄞"] ∧
      ∀ call frame w, (at? 1).eval call frame w = .ok (.string "𝄞") w ∧ (at? 2).eval call frame w =
        .ok .undefined w := by
  intro v at?
  obtain ⟨hlength, -, -, -, -, hindex, helements⟩ := elements_agree v (.string _)
  have hchars : v.elements = [.string "a", .string "𝄞"] := (helements _ rfl).trans rfl
  rw [hchars] at hlength hindex
  refine ⟨.string _, hlength, hchars, fun call frame w => ⟨?_, ?_⟩⟩
  · exact hindex 1 (by decide) call frame _ _ _ w w w rfl rfl
  · exact hindex 2 (by decide) call frame _ _ _ w w w rfl rfl

end SolidScript
