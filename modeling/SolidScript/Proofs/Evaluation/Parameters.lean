import Mathlib.Data.List.Nodup
import Mathlib.Data.List.TakeWhile
import Mathlib.Tactic.Common
import SolidScript.Proofs.Evaluation.Computation

/-!
# Binding is complete and exact

When a call can be bound, what its parameters are bound to, and which defaults are evaluated for it.
-/

namespace SolidScript

open List

/-- A list of computations gives as many results. -/
lemma length_of_mapM_eq {α β ε σ : Type} {f : α → EStateM ε σ β} {as : List α} {bs : List β}
    {s s' : σ} (h : (as.mapM f).run s = .ok bs s') : bs.length = as.length := by
  induction as generalizing bs s with
  | nil =>
    cases h
    rfl
  | cons a as ih =>
    rw [mapM_cons, EStateM.run_bind] at h
    split at h
    · rw [EStateM.run_bind] at h
      split at h
      · rename_i bs s₂ htail
        cases h
        rw [length_cons, length_cons, ih htail]
      · cases h
    · cases h

/-- The value that a call gives to the parameter at a place: by position, else by name. -/
def Arguments.given? (args : Arguments) (i : Nat) (p : Param) : Option Value :=
  args.positional[i]?.or (args.keyword? p.name)

namespace Parameters

/-- The parameters without a value, in order. -/
def pending (filled : List Filled) : List Param := (filled.filter (·.2.isNone)).map (·.1)

section

variable (params : List Param) (args : Arguments)

/-- Parameters with what a call gives them. -/
def given : List Filled := params.mapIdx fun i p => (p, args.given? i p)

/-- The parameters to which a call gives no value. -/
def unfilled : List Param := pending (given params args)

/-- The keywords of a call that are those of special variables and name no parameter, in call
order. -/
def besides : List (String × Value) := args.named.filter fun kw => isSpecial kw.1 ∧
    kw.1 ∉ params.map (·.name)

/-- The arguments of a call fit the parameters: there are not too many by position, and each keyword
names a parameter that is not filled by position, or it is that of a special variable and names
none. -/
structure Accepts : Prop where
  positional : args.positional.length ≤ params.length
  named (kw : String × Value) (hkw : kw ∈ args.named) :
    (∃ p ∈ params.drop args.positional.length, p.name = kw.1) ∨ isSpecial kw.1 ∧
    kw.1 ∉ params.map (·.name)

end

/-! ## Positions and keywords -/

lemma fill_eq (params : List Param) (vs : List Value) :
    fill params vs = params.mapIdx fun i p => (p, vs[i]?) := by
  induction params generalizing vs with
  | nil => rfl
  | cons p ps ih =>
    cases vs with
    | nil => simp [fill, ih, mapIdx_cons]
    | cons v vs => simp [fill, ih, mapIdx_cons]

/-- The names of parameters with values. -/
abbrev names (filled : List Filled) : List String := filled.map (·.1.name)

variable {filled : List Filled}

lemma assign_eq_map (h : (names filled).Nodup) (name : String) (value : Value) :
    assign name value filled =
      filled.map fun f => if f.1.name = name then (f.1, some value) else f := by
  induction filled with
  | nil => rfl
  | cons f rest ih =>
    obtain ⟨p, v⟩ := f
    obtain ⟨hp, hrest⟩ := nodup_cons.mp h
    rw [assign, map_cons]
    split
    · rename_i hname
      -- no other parameter has the name
      have hother : rest.map (fun f => if f.1.name = name then (f.1, some value) else f) =
          rest.map id := by
        apply map_congr_left
        intro g hg
        exact if_neg fun heq => hp (mem_map.mpr ⟨g, hg, heq.trans hname.symm⟩)
      rw [hother, map_id]
    · rw [ih hrest]

/-- A keyword may be used: it names a parameter that has no value yet, or it is that of a special
variable. -/
def Free (filled : List Filled) (name : String) : Prop :=
  (∃ p, (p, none) ∈ filled ∧ p.name = name) ∨ isSpecial name ∧ name ∉ names filled

/-- A parameter with the value that a keyword gives it, unless it has one. -/
def withKeyword (named : List (String × Value)) (f : Filled) : Filled :=
  (f.1, f.2.or (named.lookup f.1.name))

section Assign

variable {filled : List Filled} (h : (names filled).Nodup) {name : String} {value : Value}

include h

lemma names_assign : names (assign name value filled) = names filled := by
  rw [assign_eq_map h, names, map_map]
  apply map_congr_left
  intro f _
  simp only [Function.comp_apply]
  split <;> rfl

/-- A keyword of another name may be used as before. -/
lemma free_assign {other : String} (hother : other ≠ name) :
    Free (assign name value filled) other ↔ Free filled other := by
  unfold Free
  rw [names_assign h, assign_eq_map h]
  refine or_congr_left (exists_congr fun p => and_congr_left fun hp => ?_)
  rw [mem_map]
  constructor
  · rintro ⟨f, hf, heq⟩
    split at heq
    · cases heq
    · exact heq ▸ hf
  · intro hmem
    exact ⟨(p, none), hmem, if_neg fun heq => hother (hp.symm.trans heq)⟩

/-- To give a value and then the others is to give all of them. -/
lemma map_withKeyword_assign {p : Param} (hp : (p, none) ∈ filled) (hname : p.name = name)
    (rest : List (String × Value)) :
    (assign name value filled).map
      (withKeyword rest) = filled.map (withKeyword ((name, value) :: rest)) := by
  rw [assign_eq_map h, map_map]
  apply map_congr_left
  intro f hf
  simp only [Function.comp_apply, withKeyword, lookup_cons]
  split
  · rename_i heq
    have hsame : f = (p, none) := inj_on_of_nodup_map h hf hp (heq.trans hname.symm)
    simp [hsame, hname]
  · rename_i hne
    rw [beq_false_of_ne hne]

/-! One keyword -/

lemma find?_eq_some {f : Filled} (hf : f ∈ filled) (hname : f.1.name = name) :
    filled.find? (·.1.name = name) = some f := by
  cases hfind : filled.find? (·.1.name = name) with
  | none => exact absurd (find?_eq_none.mp hfind f hf) (by simpa using hname)
  | some g =>
    have hg : g.1.name = name := by simpa using find?_some hfind
    rw [inj_on_of_nodup_map h (mem_of_find?_eq_some hfind) hf (hg.trans hname.symm)]

lemma keywords_cons_of_param (callee : String) {p : Param} (hp : (p, none) ∈ filled)
    (hname : p.name = name) (rest : List (String × Value)) :
    keywords callee filled ((name, value) :: rest) =
      keywords callee (assign name value filled) rest := by
  rw [keywords, find?_eq_some h hp hname]

omit h in
lemma keywords_cons_of_special (callee : String) (hspecial : isSpecial name)
    (habsent : name ∉ names filled) (rest : List (String × Value)) :
    keywords callee filled ((name, value) :: rest) =
      (keywords callee filled rest).map fun (filled, specials) =>
      (filled, (name, value) :: specials) := by
  have hfind : filled.find? (·.1.name = name) = none := by
    rw [find?_eq_none]
    intro f hf heq
    exact habsent (mem_map.mpr ⟨f, hf, by simpa using heq⟩)
  rw [keywords, hfind]
  simp only [hspecial, if_true]
  cases keywords callee filled rest <;> rfl

omit h in
lemma keywords_cons_of_not_free (callee : String) (hfree : ¬Free filled name)
    (rest : List (String × Value)) :
    ∃ detail, keywords callee filled ((name, value) :: rest) = .error (failure callee detail) := by
  rw [keywords]
  split
  · exact ⟨_, rfl⟩
  · rename_i p hfind
    have hp : p.name = name := by simpa using find?_some hfind
    exact absurd (.inl ⟨p, mem_of_find?_eq_some hfind, hp⟩) hfree
  · rename_i hfind
    have habsent : name ∉ names filled := by
      intro hmem
      obtain ⟨f, hf, heq⟩ := mem_map.mp hmem
      exact absurd (find?_eq_none.mp hfind f hf) (by simpa using heq)
    rw [if_neg fun hspecial => hfree (.inr ⟨hspecial, habsent⟩)]
    exact ⟨_, rfl⟩

end Assign

/-- Keywords that may all be used are taken in. -/
lemma keywords_of_free (callee : String) (h : (names filled).Nodup) {named : List (String × Value)}
    (hnamed : (named.map (·.1)).Nodup) (hfree : ∀ kw ∈ named, Free filled kw.1) :
    keywords callee filled named =
      .ok (filled.map (withKeyword named), named.filter fun kw => kw.1 ∉ names filled) := by
  induction named generalizing filled with
  | nil =>
    have hsame : filled.map (withKeyword []) = filled.map id := by
      apply map_congr_left
      intro f _
      simp [withKeyword]
    rw [hsame, map_id]
    rfl
  | cons kw rest ih =>
    obtain ⟨name, value⟩ := kw
    obtain ⟨hname, hrest⟩ := nodup_cons.mp hnamed
    obtain ⟨hhead, htail⟩ := forall_mem_cons.mp hfree
    rcases hhead with ⟨p, hp, hpname⟩ | ⟨hspecial, habsent⟩
    · have hfree' : ∀ kw ∈ rest, Free (assign name value filled) kw.1 := fun kw hkw =>
        (free_assign h fun heq => hname (mem_map.mpr ⟨kw, hkw, heq⟩)).mpr (htail kw hkw)
      have hpresent : name ∈ names filled := mem_map.mpr ⟨_, hp, hpname⟩
      rw [keywords_cons_of_param h callee hp hpname, ih (by rwa [names_assign h]) hrest hfree',
        names_assign h, map_withKeyword_assign h hp hpname,
        filter_cons_of_neg (by simpa using hpresent)]
    · have hfilled : filled.map (withKeyword rest) =
          filled.map (withKeyword ((name, value) :: rest)) := by
        apply map_congr_left
        intro f hf
        have hf' : f.1.name ≠ name := fun heq => habsent (mem_map.mpr ⟨f, hf, heq⟩)
        rw [withKeyword, withKeyword, lookup_cons, beq_false_of_ne hf']
      rw [keywords_cons_of_special callee hspecial habsent, ih h hrest htail, hfilled,
        filter_cons_of_pos (by simpa using habsent)]
      rfl

/-- If one of them may not be used, there is an error. -/
lemma keywords_of_not_free (callee : String) (h : (names filled).Nodup)
    {named : List (String × Value)} (hnamed : (named.map (·.1)).Nodup)
    (hfree : ¬∀ kw ∈ named, Free filled kw.1) :
    ∃ detail, keywords callee filled named = .error (failure callee detail) := by
  induction named generalizing filled with
  | nil => exact absurd (fun kw hkw => absurd hkw not_mem_nil) hfree
  | cons kw rest ih =>
    obtain ⟨name, value⟩ := kw
    obtain ⟨hname, hrest⟩ := nodup_cons.mp hnamed
    by_cases hhead : Free filled name
    · have htail : ¬∀ kw ∈ rest, Free filled kw.1 :=
        fun htail => hfree (forall_mem_cons.mpr ⟨hhead, htail⟩)
      rcases hhead with ⟨p, hp, hpname⟩ | ⟨hspecial, habsent⟩
      · rw [keywords_cons_of_param h callee hp hpname]
        refine ih (by rwa [names_assign h]) hrest fun hall => htail fun kw hkw => ?_
        exact (free_assign h fun heq => hname (mem_map.mpr ⟨kw, hkw, heq⟩)).mp (hall kw hkw)
      · obtain ⟨detail, heq⟩ := ih h hrest htail
        rw [keywords_cons_of_special callee hspecial habsent, heq]
        exact ⟨detail, rfl⟩
    · exact keywords_cons_of_not_free callee hhead rest

/-! ## All of a call -/

variable {params : List Param} {args : Arguments}

lemma names_fill (params : List Param) (vs : List Value) :
    names (fill params vs) = params.map (·.name) := by
  rw [fill_eq, names]
  apply ext_getElem?
  intro i
  simp [getElem?_mapIdx, Function.comp_def]

/-- The parameters that positions leave without a value are the last ones. -/
lemma mem_fill_none {p : Param} {vs : List Value} :
    (p, none) ∈ fill params vs ↔ p ∈ params.drop vs.length := by
  induction params generalizing vs with
  | nil => simp [fill]
  | cons q qs ih =>
    cases vs with
    | nil =>
      have h : (p, none) ∈ fill qs [] ↔ p ∈ qs := ih
      simp [fill, h]
    | cons v vs => simp [fill, ih]

lemma accepts_iff : Accepts params args ↔
    args.positional.length ≤ params.length ∧
      ∀ kw ∈ args.named, Free (fill params args.positional) kw.1 := by
  have hfree : ∀ name, Free (fill params args.positional) name ↔
      (∃ p ∈ params.drop args.positional.length, p.name = name) ∨ isSpecial name ∧
        name ∉ params.map (·.name) := by
    intro name
    unfold Free
    rw [names_fill]
    simp only [mem_fill_none]
  simp only [hfree]
  exact ⟨fun h => ⟨h.positional, h.named⟩, fun h => ⟨h.1, h.2⟩⟩

lemma prepare_of_accepts (callee : String) (hparams : (params.map (·.name)).Nodup)
    (hnamed : (args.named.map (·.1)).Nodup) (h : Accepts params args) :
    prepare callee params args = .ok (given params args, besides params args) := by
  obtain ⟨hlength, hfree⟩ := accepts_iff.mp h
  have hgiven : (fill params args.positional).map (withKeyword args.named) = given params args := by
    rw [fill_eq]
    apply ext_getElem?
    intro i
    rw [given, getElem?_map, getElem?_mapIdx, getElem?_mapIdx, Option.map_map]
    rfl
  have hbesides : (args.named.filter fun kw => kw.1 ∉ params.map (·.name)) =
      besides params args := by
    apply filter_congr
    intro kw hkw
    rcases h.named kw hkw with ⟨p, hp, hname⟩ | ⟨hspecial, -⟩
    · have hpresent : kw.1 ∈ params.map (·.name) := mem_map.mpr ⟨p, mem_of_mem_drop hp, hname⟩
      simp [hpresent]
    · simp [hspecial]
  rw [prepare, if_neg (Nat.not_lt.mpr hlength),
    keywords_of_free callee (by rwa [names_fill]) hnamed hfree, hgiven, names_fill, hbesides]

lemma prepare_of_not_accepts (callee : String) (hparams : (params.map (·.name)).Nodup)
    (hnamed : (args.named.map (·.1)).Nodup) (h : ¬Accepts params args) :
    ∃ detail, prepare callee params args = .error (failure callee detail) := by
  unfold prepare
  split
  · exact ⟨_, rfl⟩
  · rename_i hlength
    apply keywords_of_not_free callee (by rwa [names_fill]) hnamed
    exact fun hfree => h (accepts_iff.mpr ⟨Nat.not_lt.mp hlength, hfree⟩)

/-! ## Defaults -/

/-- The defaults of parameters, in order. -/
def defaults (ps : List Param) : List Expr := ps.filterMap (·.default)

/-- Parameters with their values; those without one take the next of a list. -/
def merge : List Filled → List Value → List (String × Value)
  | [], _ => []
  | (p, some v) :: rest, vs => (p.name, v) :: merge rest vs
  | (p, none) :: rest, v :: vs => (p.name, v) :: merge rest vs
  | (_, none) :: _, [] => []

@[simp] lemma pending_cons_some (p : Param) (v : Value) (rest : List Filled) :
    pending ((p, some v) :: rest) = pending rest := rfl

@[simp] lemma pending_cons_none (p : Param) (rest : List Filled) :
    pending ((p, none) :: rest) = p :: pending rest := rfl

/-- Every parameter has the value that it was given, or else the one that stands beside its name. -/
lemma map_some_merge (h : (names filled).Nodup) {vs : List Value}
    (hlength : vs.length = (pending filled).length) :
    (merge filled vs).map some = filled.map fun f =>
      (f.2.or ((((pending filled).map (·.name)).zip vs).lookup f.1.name)).map (f.1.name, ·) := by
  induction filled generalizing vs with
  | nil => rfl
  | cons f rest ih =>
    obtain ⟨p, v⟩ := f
    obtain ⟨hp, hrest⟩ := nodup_cons.mp h
    cases v with
    | some v =>
      rw [merge, map_cons, map_cons, ih hrest hlength]
      rfl
    | none =>
      obtain ⟨v, vs, rfl⟩ := exists_cons_of_length_eq_add_one hlength
      rw [merge, map_cons, map_cons, ih hrest (Nat.succ.inj hlength)]
      congr 1
      · simp
      · apply map_congr_left
        intro f hf
        have hne : f.1.name ≠ p.name := fun heq => hp (mem_map.mpr ⟨f, hf, heq⟩)
        simp [lookup_cons, beq_false_of_ne hne]

/-- To complete parameters is to find the values of those that have none, in order. -/
lemma complete_eq {m : Type → Type} [Monad m] [LawfulMonad m] [MonadExceptOf RuntimeError m]
    (callee : String) (default : Expr → m Value) (filled : List Filled) :
    complete callee default filled = merge filled <$>
      (pending filled).mapM (valueOf callee default · none) := by
  induction filled with
  | nil => simp [complete, pending, merge]
  | cons f rest ih =>
    obtain ⟨p, v⟩ := f
    cases v with
    | some v => simp [complete, valueOf, ih, merge]
    | none => simp [complete, ih, merge]

section

variable {σ : Type} (default : Expr → EStateM RuntimeError σ Value)

/-- The defaults of parameters are evaluated from left to right. This ends at the first error, and
at the first parameter that has none. -/
lemma mapM_valueOf (callee : String) (ps : List Param) (s : σ) :
    (ps.mapM (valueOf callee default · none)).run s =
      match ((defaults (ps.takeWhile (·.default.isSome))).mapM default).run s with
      | .error e s => .error e s
      | .ok vs s =>
        match ps.find? (·.default.isNone) with
        | some p => .error (failure callee ("missing required argument `" ++ p.name ++ "`")) s
        | none => .ok vs s := by
  induction ps generalizing s with
  | nil => rfl
  | cons p ps ih =>
    rw [mapM_cons, EStateM.run_bind]
    cases hp : p.default with
    | none =>
      simp only [defaults, valueOf, hp, takeWhile_cons, find?_cons, Option.isSome_none,
        Option.isNone_none]
      rfl
    | some e =>
      have hvalue : valueOf callee default p none = default e := by simp only [valueOf, hp]
      have hdefaults : defaults ((p :: ps).takeWhile (·.default.isSome)) =
          e :: defaults (ps.takeWhile (·.default.isSome)) := by
        simp [defaults, hp]
      have hfind : (p :: ps).find? (·.default.isNone) = ps.find? (·.default.isNone) := by simp [hp]
      rw [hvalue, hdefaults, hfind, mapM_cons, EStateM.run_bind]
      cases (default e).run s with
      | error err s => rfl
      | ok v s =>
        dsimp only
        rw [EStateM.run_bind, ih, EStateM.run_bind]
        cases ((defaults (ps.takeWhile (·.default.isSome))).mapM default).run s with
        | error err s => rfl
        | ok vs s => cases ps.find? (·.default.isNone) <;> rfl

variable {default}

/-- The outcome of a binding whose arguments fit. -/
lemma bindParameters_of_accepts (callee : String) (hparams : (params.map (·.name)).Nodup)
    (hnamed : (args.named.map (·.1)).Nodup) (h : Accepts params args) (s : σ) :
    (bindParameters callee params args default).run s =
      match ((defaults ((unfilled params args).takeWhile (·.default.isSome))).mapM default).run
      s with
      | .error e s => .error e s
      | .ok vs s =>
        match (unfilled params args).find? (·.default.isNone) with
        | some p => .error (failure callee ("missing required argument `" ++ p.name ++ "`")) s
        | none => .ok (merge (given params args) vs ++ besides params args) s := by
  have hvalues := mapM_valueOf default callee (unfilled params args) s
  rw [bindParameters, prepare_of_accepts callee hparams hnamed h]
  dsimp only
  rw [complete_eq, bind_map_left, EStateM.run_bind, ← unfilled, hvalues]
  cases ((defaults ((unfilled params args).takeWhile (·.default.isSome))).mapM default).run s with
  | error err s => rfl
  | ok vs s => cases (unfilled params args).find? (·.default.isNone) <;> rfl

/-- A binding whose arguments do not fit evaluates nothing. -/
lemma bindParameters_of_not_accepts (callee : String) (hparams : (params.map (·.name)).Nodup)
    (hnamed : (args.named.map (·.1)).Nodup) (h : ¬Accepts params args) (s : σ) :
    ∃ detail, (bindParameters callee params args default).run s =
      .error (failure callee detail) s := by
  obtain ⟨detail, heq⟩ := prepare_of_not_accepts callee hparams hnamed h
  refine ⟨detail, ?_⟩
  rw [bindParameters, heq]
  rfl

end

/-- All parameters have defaults if none is found that has not. -/
lemma forall_isSome_of_find?_eq_none {ps : List Param} (h : ps.find? (·.default.isNone) = none) :
    ∀ p ∈ ps, p.default.isSome := by
  intro p hp
  have hnone := find?_eq_none.mp h p hp
  simpa [Option.isSome_iff_ne_none] using hnone

/-- When a binding succeeds, and what with. -/
lemma bindParameters_eq_ok_iff {σ : Type} {default : Expr → EStateM RuntimeError σ Value}
    (callee : String) (hparams : (params.map (·.name)).Nodup)
    (hnamed : (args.named.map (·.1)).Nodup) {s s' : σ} {bound : List (String × Value)} :
    (bindParameters callee params args default).run s = .ok bound s' ↔
      Accepts params args ∧ (∀ p ∈ unfilled params args, p.default.isSome) ∧
        ∃ vs, ((defaults (unfilled params args)).mapM default).run s = .ok vs s' ∧
          bound = merge (given params args) vs ++ besides params args := by
  by_cases h : Accepts params args
  · rw [bindParameters_of_accepts callee hparams hnamed h]
    simp only [h, true_and]
    cases hfind : (unfilled params args).find? (·.default.isNone) with
    | some p =>
      -- there is an error, at the latest at a parameter that lacks a default
      have hp := find?_some hfind
      constructor
      · intro heq
        split at heq <;> cases heq
      · rintro ⟨hall, -⟩
        have hsome := hall p (mem_of_find?_eq_some hfind)
        rw [Option.isNone_iff_eq_none.mp hp] at hsome
        cases hsome
    | none =>
      have hall := forall_isSome_of_find?_eq_none hfind
      rw [takeWhile_eq_self_iff.mpr hall]
      cases ((defaults (unfilled params args)).mapM default).run s with
      | error e s₁ => simp
      | ok vs s₁ =>
        constructor
        · intro heq
          cases heq
          exact ⟨hall, vs, rfl, rfl⟩
        · rintro ⟨-, vs', hvs, rfl⟩
          cases hvs
          rfl
  · obtain ⟨detail, herror⟩ := bindParameters_of_not_accepts callee hparams hnamed h s
    rw [herror]
    simp [h]

lemma names_given (params : List Param) (args : Arguments) :
    names (given params args) = params.map (·.name) := by
  apply ext_getElem?
  intro i
  simp [names, given, getElem?_mapIdx, Function.comp_def]

lemma length_defaults {ps : List Param} (h : ∀ p ∈ ps, p.default.isSome) :
    (defaults ps).length = ps.length :=
  filterMap_length_eq_length.mpr h

/-- The state that a computation leaves behind, however it ends. -/
def lastState {ε σ α : Type} : EStateM.Result ε σ α → σ
  | .ok _ s => s
  | .error _ s => s

end Parameters

open Parameters in
/-- Binding is complete and exact. Arguments are bound if they fit, every parameter without one has
a default, and these defaults can be evaluated. The result is the parameters in order, each with its
positional value, else its keyword value, else its default, and behind them the special variables
that are no parameters, in call order. Only the defaults of parameters without a value are
evaluated, from left to right up to the first parameter that has none, and none at all if the
arguments do not fit. -/
theorem bindParameters_exact {σ : Type} (callee : String) (params : List Param) (args : Arguments)
    (default : Expr → EStateM RuntimeError σ Value) (s : σ) (hparams : (params.map (·.name)).Nodup)
    (hnamed : (args.named.map (·.1)).Nodup) :
    ((∃ bound s', (bindParameters callee params args default).run s = .ok bound s') ↔
        Accepts params args ∧ (∀ p ∈ unfilled params args, p.default.isSome) ∧
          ∃ vs s', ((defaults (unfilled params args)).mapM default).run s = .ok vs s') ∧
      (∀ bound s', (bindParameters callee params args default).run s = .ok bound s' →
        ∃ vs, ((defaults (unfilled params args)).mapM default).run s = .ok vs s' ∧
          bound.map some =
            (params.mapIdx fun i p =>
              ((args.given? i p).or
              ((((unfilled params args).map (·.name)).zip vs).lookup p.name)).map (p.name, ·)) ++
            (besides params args).map some) ∧
      (Accepts params args → lastState ((bindParameters callee params args default).run s) =
        lastState (((defaults ((unfilled params args).takeWhile (·.default.isSome))).mapM
        default).run s)) ∧
      (¬Accepts params args → ∃ e, (bindParameters callee params args default).run s =
      .error e s) := by
  refine ⟨?_, fun bound s' h => ?_, fun h => ?_, fun h => ?_⟩
  · simp only [bindParameters_eq_ok_iff callee hparams hnamed]
    constructor
    · rintro ⟨bound, s', haccepts, hall, vs, hvs, -⟩
      exact ⟨haccepts, hall, vs, s', hvs⟩
    · rintro ⟨haccepts, hall, vs, s', hvs⟩
      exact ⟨_, s', haccepts, hall, vs, hvs, rfl⟩
  · obtain ⟨-, hall, vs, hvs, rfl⟩ := (bindParameters_eq_ok_iff callee hparams hnamed).mp h
    refine ⟨vs, hvs, ?_⟩
    have hlength : vs.length = (unfilled params args).length := by
      rw [length_of_mapM_eq hvs, length_defaults hall]
    rw [List.map_append, map_some_merge (by rwa [names_given]) hlength]
    congr 1
    apply List.ext_getElem?
    intro i
    rw [given, List.getElem?_map, List.getElem?_mapIdx, List.getElem?_mapIdx, Option.map_map]
    rfl
  · rw [bindParameters_of_accepts callee hparams hnamed h]
    cases ((defaults ((unfilled params args).takeWhile (·.default.isSome))).mapM default).run s with
    | error e s => rfl
    | ok vs s => cases (unfilled params args).find? (·.default.isNone) <;> rfl
  · obtain ⟨detail, heq⟩ := bindParameters_of_not_accepts callee hparams hnamed h s
    exact ⟨_, heq⟩

/-! ## A call with everything -/

section

open Parameters

/-- Three parameters, two of them with defaults. -/
def mixedParams : List Param :=
  [⟨"a", none⟩, ⟨"b", some (.bool .start true)⟩, ⟨"c", some (.bool .start true)⟩]

/-- An argument for the first parameter, a keyword for the last one, and a special variable. -/
def mixedArguments : Arguments := ⟨[.undefined], [("$fn", .undefined), ("c", .bool false)]⟩

/-- Evaluate to `true` and count how often. -/
def countedDefault (_ : Expr) : EStateM RuntimeError Nat Value := fun n => .ok (.bool true) (n + 1)

/-- The parameter in the middle takes its default, which is the only one that is evaluated. -/
theorem bindParameters_exact_mixed :
    (mixedParams.map (·.name)).Nodup ∧ (mixedArguments.named.map (·.1)).Nodup ∧
      Accepts mixedParams mixedArguments ∧ ∃ bound s',
        (bindParameters "f" mixedParams mixedArguments countedDefault).run 0 = .ok bound s' ∧
        s' = 1 ∧
          bound.map some =
            [some ("a", .undefined), some ("b", .bool true), some ("c", .bool false),
            some ("$fn", .undefined)] := by
  have hparams : (mixedParams.map (·.name)).Nodup := by decide
  have hnamed : (mixedArguments.named.map (·.1)).Nodup := by decide
  have hspecial : isSpecial "$fn" := by decide +kernel
  have haccepts : Accepts mixedParams mixedArguments := by
    refine ⟨by decide, fun kw hkw => ?_⟩
    rcases List.mem_cons.mp hkw with rfl | hkw
    · exact .inr ⟨hspecial, by decide⟩
    · obtain rfl := List.mem_singleton.mp hkw
      exact .inl ⟨_, List.mem_cons_of_mem _ List.mem_cons_self, rfl⟩
  obtain ⟨hiff, hresult, -, -⟩ :=
    bindParameters_exact "f" mixedParams mixedArguments countedDefault 0 hparams hnamed
  obtain ⟨bound, s', hok⟩ := hiff.mpr ⟨haccepts, by decide, _, _, rfl⟩
  obtain ⟨vs, hvs, hbound⟩ := hresult bound s' hok
  cases hvs
  have hbesides : besides mixedParams mixedArguments = [("$fn", .undefined)] := by
    simp [besides, mixedArguments, mixedParams, hspecial]
  refine ⟨hparams, hnamed, haccepts, bound, 1, hok, rfl, hbound.trans ?_⟩
  rw [hbesides]
  rfl

/-- A special variable as a parameter, and a call that gives it by position and by name. -/
def specialParams : List Param := [⟨"$a", none⟩]

def specialArguments : Arguments := ⟨[.bool true], [("$a", .bool false)]⟩

/-- It is not enough for a keyword to be that of a special variable: if it names a parameter that is
filled by position, the call cannot be bound. -/
theorem bindParameters_special_filled :
    (specialParams.map (·.name)).Nodup ∧ (specialArguments.named.map (·.1)).Nodup ∧
      ¬((∃ bound s', (bindParameters "m" specialParams specialArguments countedDefault).run 0 =
      .ok bound s') ↔
        specialArguments.positional.length ≤ specialParams.length ∧
          (∀ kw ∈ specialArguments.named,
            (∃ p ∈ specialParams.drop specialArguments.positional.length, p.name = kw.1) ∨
            isSpecial kw.1) ∧
          (∀ p ∈ unfilled specialParams specialArguments, p.default.isSome) ∧
          ∃ vs s', ((defaults (unfilled specialParams specialArguments)).mapM countedDefault).run
          0 = .ok vs s') := by
  refine ⟨by decide, by decide, fun hiff => ?_⟩
  have hspecial : isSpecial "$a" := by decide +kernel
  have hnamed : ∀ kw ∈ specialArguments.named,
      (∃ p ∈ specialParams.drop specialArguments.positional.length, p.name = kw.1) ∨
        isSpecial kw.1 := by
    intro kw hkw
    obtain rfl := List.mem_singleton.mp hkw
    exact .inr hspecial
  obtain ⟨bound, s', hok⟩ := hiff.mpr ⟨by decide, hnamed, by decide, _, _, rfl⟩
  cases hok

end

end SolidScript
