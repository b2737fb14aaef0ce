import Mathlib.Data.List.Forall2
import SolidScript.Proofs.Grammar.Tree
import SolidScript.Proofs.Program.Outcome

/-!
# Statements that are left out

A statement with a mistake in one of its blocks is left out of its own block. The program is the one
that the tree gives from which such statements have been removed, as long as the names of modules
keep counting: a call is told to be of a function or of a module before it is known which
definitions will be left out.
-/

namespace SolidScript

open Known List OfTree Program Tree

open Recording (Succeeds succeeds_pure succeeds_bind succeeds_map)

/-! ## Removing statements -/

namespace OfTree

/-- Whether a statement is left out: there is a mistake in a block that it owns. -/
def isDropped (known : Known) (t : Tree) : Bool :=
  match (statement known t).run.value with
  | .error (.within (.mistake _)) => true
  | _ => false

/-- Whether a node defines a module of one of these names. -/
def definesOneOf (names : List String) (t : Tree) : Bool :=
  (Known.ofStatement t).modules.any names.contains

/-- The body of a statement without what is left out. A body that is left out itself is an empty
statement. -/
def prunedBody (stay : List String) (known : Known) (t : Tree) (braced alone : Known → Tree) :
    Tree :=
  if t.kind = "block" then braced (known.union (.ofBlock t.children))
  else
    let known := known.union (.ofStatement t)
    if isDropped known t then
      if definesOneOf stay t then t else .node "empty_stmt" "" t.pos []
    else alone known

mutual

/-- A statement without the statements inside of it that are left out. Definitions of modules stay
if the module has one of these names. -/
def pruned (stay : List String) (known : Known) : Tree → Tree
  | t@(.node kind text pos children) =>
    match Grammar.Name.ofKind? kind with
    | some .block => .node kind text pos (prunedAll stay known children)
    | some .moduleDef => .node kind text pos (prunedLast stay known children)
    | some .forStatement => .node kind text pos (prunedLast stay known children)
    | some .ifStatement => .node kind text pos (prunedBranches stay known children)
    | some .operatorCall =>
      if isMuted t then t else .node kind text pos (prunedLast stay known children)
    | _ => t

/-- The statements of a block without those that are left out. -/
def prunedAll (stay : List String) (known : Known) : List Tree → List Tree
  | [] => []
  | t :: ts =>
    if isDropped known t then
      if definesOneOf stay t then t :: prunedAll stay known ts else prunedAll stay known ts
    else pruned stay known t :: prunedAll stay known ts

/-- The statements inside a node without those that are left out. -/
def prunedInside (stay : List String) (known : Known) : Tree → Tree
  | .node kind text pos children => .node kind text pos (prunedAll stay known children)

/-- The last node is a body. -/
def prunedLast (stay : List String) (known : Known) : List Tree → List Tree
  | [] => []
  | [t] => [prunedBody stay known t (prunedInside stay · t) (pruned stay · t)]
  | t :: u :: ts => t :: prunedLast stay known (u :: ts)

/-- The second and the third node are bodies. -/
def prunedBranches (stay : List String) (known : Known) : List Tree → List Tree
  | c :: yes :: no :: ts =>
    c :: prunedBody stay known yes (prunedInside stay · yes) (pruned stay · yes) ::
      prunedBody stay known no (prunedInside stay · no) (pruned stay · no) :: ts
  | [c, yes] => [c, prunedBody stay known yes (prunedInside stay · yes) (pruned stay · yes)]
  | ts => ts

end

end OfTree

/-- A tree from which the statements are removed that are left out, but for definitions of modules
of some names. A tree that is one statement is the whole body of its program. -/
def Tree.withoutDropped (functions stay : List String) (t : Tree) : Tree :=
  let known := Known.union { functions } (.ofBlock t.nodes)
  if t.kind = "program" then prunedInside stay known t
  else if isDropped known t then
    if definesOneOf stay t then t else .node "empty_stmt" "" t.pos []
  else pruned stay known t

mutual

/-- The names of the functions that are defined anywhere in a tree. -/
def Tree.functionNames : Tree → List String
  | t@(.node _ _ _ children) => (Known.ofStatement t).functions ++ functionNamesAll children

def Tree.functionNamesAll : List Tree → List String
  | [] => []
  | t :: ts => t.functionNames ++ functionNamesAll ts

end

lemma Tree.mem_functionNamesAll {name : String} {ts : List Tree} :
    name ∈ functionNamesAll ts ↔ ∃ t ∈ ts, name ∈ t.functionNames := by
  induction ts with
  | nil => simp [functionNamesAll]
  | cons t ts ih => simp [functionNamesAll, ih]

/-- All functions that a tree defines have one of these names. -/
def Tree.NamedIn (names : List String) (t : Tree) : Prop := ∀ name ∈ t.functionNames, name ∈ names

lemma Tree.NamedIn.child {names : List String} {kind text : String} {pos : Position}
    {children : List Tree} (h : (node kind text pos children).NamedIn names) {t : Tree}
    (ht : t ∈ children) : t.NamedIn names := by
  intro name hname
  refine h name ?_
  rw [functionNames]
  exact mem_append_right _ (mem_functionNamesAll.mpr ⟨t, ht, hname⟩)

/-- A statement defines functions with these names only. -/
lemma Tree.NamedIn.functions {names : List String} {t : Tree} (h : t.NamedIn names) :
    ∀ name ∈ (ofStatement t).functions, name ∈ names := by
  intro name hname
  refine h name ?_
  obtain ⟨kind, text, pos, children⟩ := t
  rw [functionNames]
  exact mem_append_left _ hname

/-! ## Names -/

namespace Known

/-- The same functions, all of them with one of these names, and the same modules among these
names. -/
structure Agree (names : List String) (a b : Known) : Prop where
  functions : a.functions = b.functions
  bounded : ∀ name ∈ a.functions, name ∈ names
  modules : ∀ name ∈ names, (name ∈ a.modules ↔ name ∈ b.modules)

namespace Agree

variable {names : List String} {a b c d : Known}

lemma refl (h : ∀ name ∈ a.functions, name ∈ names) : a.Agree names a :=
  ⟨rfl, h, fun _ _ => Iff.rfl⟩

/-- Definitions that agree do so together. -/
lemma union (h : a.Agree names b) (h' : c.Agree names d) : (a.union c).Agree names (b.union d) where
  functions := congrArg₂ (· ++ ·) h.functions h'.functions
  bounded name hname := (mem_append.mp hname).elim (h.bounded name) (h'.bounded name)
  modules name hname := by
    show name ∈ a.modules ++ c.modules ↔ name ∈ b.modules ++ d.modules
    rw [mem_append, mem_append, h.modules name hname, h'.modules name hname]

/-- Which calls are calls of functions depends on the names of functions only. -/
lemma callsFunction_eq (h : a.Agree names b) (name : String) :
    a.callsFunction name = b.callsFunction name := by
  unfold callsFunction
  rw [← h.functions]
  by_cases hname : name ∈ a.functions
  · have hmodules := h.modules name (h.bounded name hname)
    simp [hmodules]
  · simp [hname]

end Agree

lemma agree_ofStatement {names : List String} {t : Tree} (h : t.NamedIn names) :
    (ofStatement t).Agree names (ofStatement t) := .refl h.functions

/-- A block agrees with itself. -/
lemma agree_ofBlock {names : List String} {ts : List Tree} (h : ∀ t ∈ ts, t.NamedIn names) :
    (ofBlock ts).Agree names (ofBlock ts) := by
  induction ts with
  | nil => exact .refl (forall_mem_nil _)
  | cons t ts ih =>
    obtain ⟨ht, hts⟩ := forall_mem_cons.mp h
    exact (agree_ofStatement ht).union (ih hts)

end Known

namespace OfTree

variable {names : List String}

/-! ## What a node stands for depends on names of functions only -/

/-- A node that stands for the same statements where the same names of functions and modules are
known. -/
structure Steady (names : List String) (t : Tree) : Prop where
  named : t.NamedIn names
  statement {a b : Known} (h : a.Agree names b) : statement a t = statement b t
  inside {a b : Known} (h : a.Agree names b) : inside a t = inside b t

section

variable {a b : Known} (h : a.Agree names b)

include h

lemma Steady.body {t : Tree} (ht : Steady names t) :
    OfTree.body a t (OfTree.inside · t) (OfTree.statement · t) =
      OfTree.body b t (OfTree.inside · t) (OfTree.statement · t) := by
  have hchildren : (ofBlock t.children).Agree names (.ofBlock t.children) := by
    obtain ⟨kind, text, pos, children⟩ := t
    exact agree_ofBlock fun u hu => ht.named.child hu
  unfold OfTree.body
  dsimp only
  rw [ht.inside (h.union hchildren), ht.statement (h.union (agree_ofStatement ht.named))]

/-- Statements are lowered alike from names that agree. -/
lemma statements_congr {ts : List Tree} (hts : ∀ t ∈ ts, Steady names t) :
    statements a ts = statements b ts := by
  induction ts with
  | nil => rfl
  | cons t ts ih =>
    obtain ⟨ht, hts⟩ := forall_mem_cons.mp hts
    rw [statements, statements, ih hts, ht.statement h]

lemma lastBody_congr (node : Tree) {ts : List Tree} (hts : ∀ t ∈ ts, Steady names t) :
    lastBody a node ts = lastBody b node ts := by
  induction ts with
  | nil => rfl
  | cons t ts ih =>
    obtain ⟨ht, hts⟩ := forall_mem_cons.mp hts
    cases ts with
    | nil => exact ht.body h
    | cons u ts => exact ih hts

lemma branches_congr (node : Tree) {ts : List Tree} (hts : ∀ t ∈ ts, Steady names t) :
    branches a node ts = branches b node ts := by
  match ts with
  | [] => rfl
  | [_] => rfl
  | [_, yes] => rw [branches, branches, (hts yes (by simp)).body h]
  | _ :: yes :: no :: _ =>
    rw [branches, branches, (hts yes (by simp)).body h, (hts no (by simp)).body h]

end

/-- Every node whose functions are among the names is such a node. -/
theorem steady (t : Tree) : t.NamedIn names → Steady names t := by
  induction t using induction with
  | h kind text pos children ih =>
    intro ht
    have hchildren : ∀ t ∈ children, Steady names t := fun t hmem => ih t hmem (ht.child hmem)
    refine ⟨ht, fun {a b} h => ?_, fun h => statements_congr h hchildren⟩
    have hcalls : a.callsFunction = b.callsFunction := funext h.callsFunction_eq
    rw [statement, statement, statements_congr h hchildren, lastBody_congr h _ hchildren,
      branches_congr h _ hchildren, hcalls]

/-! ## What a statement reads by itself -/

/-- The kinds of nodes that a statement looks for among its children. -/
def partKinds : List String := ["ident", "params", "call_args", "expr", "modifier", "for_binding"]

/-- The same node, or two nodes of kinds that a statement does not look for. -/
def Alike (t u : Tree) : Prop := t = u ∨ t.kind ∉ partKinds ∧ u.kind ∉ partKinds

section

variable {ts us : List Tree} (h : List.Forall₂ Alike ts us)

include h

/-- What passes over nodes of other kinds is the same of both. -/
lemma congr_alike {α : Type} (f : List Tree → α)
    (hcons : ∀ t ts us, f ts = f us → f (t :: ts) = f (t :: us))
    (hskip : ∀ t ts, t.kind ∉ partKinds → f (t :: ts) = f ts) : f ts = f us := by
  induction h with
  | nil => rfl
  | @cons t u ts us htu _ ih =>
    rcases htu with rfl | ⟨ht, hu⟩
    · exact hcons t ts us ih
    · rw [hskip t ts ht, hskip u us hu, ih]

/-- Alike lists have the same parts. -/
lemma find?_alike {kind : String} (hkind : kind ∈ partKinds) :
    ts.find? (·.kind = kind) = us.find? (·.kind = kind) := by
  refine congr_alike h _ (fun t ts us ih => ?_) fun t ts ht => ?_
  · rw [find?_cons, find?_cons, ih]
  · have ht : t.kind ≠ kind := fun heq => ht (heq ▸ hkind)
    simp [ht]

lemma firstExpr_alike : firstExpr ts = firstExpr us := by
  refine congr_alike h _ (fun t ts us ih => ?_) fun t ts ht => ?_
  · rw [firstExpr, firstExpr, ih]
  · have ht : t.kind ≠ "expr" := fun heq => ht (heq ▸ by decide)
    rw [firstExpr, if_neg ht]

lemma firstArguments_alike : firstArguments ts = firstArguments us := by
  refine congr_alike h _ (fun ⟨kind, text, pos, children⟩ ts us ih => ?_)
    fun ⟨kind, text, pos, children⟩ ts ht => ?_
  · rw [firstArguments, firstArguments, ih]
  · have ht : kind ≠ "call_args" := fun heq => ht (show kind ∈ partKinds from heq ▸ by decide)
    rw [firstArguments, if_neg ht]

lemma bindings_alike : bindings ts = bindings us := by
  refine congr_alike h _ (fun t ts us ih => ?_) fun t ts ht => ?_
  · rw [bindings, bindings, ih]
  · have ht : t.kind ≠ "for_binding" := fun heq => ht (heq ▸ by decide)
    rw [bindings, if_neg ht]

end

/-! ## Which statements are left out -/

variable {known : Known} {t : Tree} {α : Type} {block : Program}

/-- A statement is dropped if it fails within itself. -/
lemma isDropped_iff : isDropped known t = true ↔ ∃ e, (statement known t).run.value =
    .error (.within (.mistake e)) := by
  unfold isDropped
  split
  · rename_i e he
    simp [he]
  · rename_i hnot
    simpa using hnot

/-- A statement fails in itself, if it fails. -/
abbrev FailsHere {α : Type} (x : Recording Failure α) : Prop :=
  Recording.Ends (fun _ => True) (fun e => ∃ stop, e = .here stop) (fun _ => True) x

lemma failsHere_own (x : Recording Stop α) : FailsHere (own x) :=
  .adapt ⟨fun _ _ => trivial, fun e _ => ⟨e, rfl⟩, fun _ _ => trivial⟩

lemma not_isDropped_of_failsHere (h : FailsHere (statement known t)) :
    isDropped known t = false := by
  rw [← Bool.not_eq_true, isDropped_iff]
  rintro ⟨e, he⟩
  obtain ⟨stop, hstop⟩ := h.fails _ he
  nomatch hstop

/-- Only statements that own blocks are left out. -/
lemma rule_of_isDropped (h : isDropped known t = true) :
    t.rule? = some .moduleDef ∨ t.rule? = some .ifStatement ∨ t.rule? = some .forStatement ∨
      t.rule? = some .operatorCall := by
  obtain ⟨kind, text, pos, children⟩ := t
  by_contra hnot
  simp only [not_or] at hnot
  obtain ⟨hmodule, hif, hfor, hcall⟩ := hnot
  refine Bool.false_ne_true ((not_isDropped_of_failsHere ?_).symm.trans h)
  rw [statement]
  split <;> rename_i hrule
  · exact .pure trivial
  · exact failsHere_own _
  · exact (failsHere_own _).bind fun _ _ => (failsHere_own _).bind fun _ _ => .pure trivial
  · exact absurd hrule hmodule
  · exact (failsHere_own _).bind fun _ _ =>
      (failsHere_own _).bind fun _ _ => (failsHere_own _).bind fun _ _ =>
      .pure trivial
  · exact absurd hrule hif
  · exact absurd hrule hfor
  · exact absurd hrule hcall
  · exact .bind (.record trivial) fun _ _ => .pure trivial

/-- Only statements are dropped, not parts of them. -/
lemma kind_of_isDropped (h : isDropped known t = true) : t.kind ∉ partKinds := by
  rcases rule_of_isDropped h with hrule | hrule | hrule | hrule <;>
    rw [Grammar.Name.kind_of_ofKind? hrule] <;> decide

/-- What is left out defines no function, and a module only under the names that are seen. -/
lemma functions_of_isDropped (h : isDropped known t = true) : (ofStatement t).functions = [] := by
  obtain ⟨kind, text, pos, children⟩ := t
  rcases rule_of_isDropped h with hrule | hrule | hrule | hrule <;>
    (unfold Tree.rule? at hrule; rw [ofStatement]; simp only [Tree.kind] at hrule; rw [hrule])

/-! ## Pruned nodes -/

lemma kind_pruned (stay : List String) (known : Known) (t : Tree) :
    (pruned stay known t).kind = t.kind := by
  obtain ⟨kind, text, pos, children⟩ := t
  rw [pruned]
  repeat' split
  all_goals rfl

/-- A node that a statement looks for is not pruned. -/
lemma alike_pruned (stay : List String) (known : Known) (t : Tree) :
    Alike t (pruned stay known t) := by
  by_cases hkind : t.kind ∈ partKinds
  · left
    obtain ⟨kind, text, pos, children⟩ := t
    have hkind : kind ∈ partKinds := hkind
    simp only [partKinds, mem_cons, not_mem_nil, or_false] at hkind
    rcases hkind with rfl | rfl | rfl | rfl | rfl | rfl <;> rfl
  · exact .inr ⟨hkind, by rwa [kind_pruned]⟩

/-- A pruned body has the same parts. -/
lemma alike_prunedBody (stay : List String) (known : Known) (t : Tree) :
    Alike t (prunedBody stay known t (prunedInside stay · t) (pruned stay · t)) := by
  unfold prunedBody
  split
  · rename_i hkind
    right
    obtain ⟨kind, text, pos, children⟩ := t
    have hblock : kind ∉ partKinds := (show kind = "block" from hkind) ▸ by decide
    exact ⟨hblock, hblock⟩
  · dsimp only
    split
    · rename_i hdropped
      split
      · exact .inl rfl
      · exact .inr ⟨kind_of_isDropped hdropped, show "empty_stmt" ∉ partKinds by decide⟩
    · exact alike_pruned stay _ t

lemma alike_refl (ts : List Tree) : Forall₂ Alike ts ts := forall₂_same.mpr fun _ _ => .inl rfl

lemma alike_prunedLast (stay : List String) (known : Known) : ∀ ts : List Tree,
    Forall₂ Alike ts (prunedLast stay known ts)
  | [] => .nil
  | [t] => .cons (alike_prunedBody stay known t) .nil
  | _ :: u :: ts => .cons (.inl rfl) (alike_prunedLast stay known (u :: ts))

lemma alike_prunedBranches (stay : List String) (known : Known) : ∀ ts : List Tree,
    Forall₂ Alike ts (prunedBranches stay known ts)
  | [] => .nil
  | [_] => .cons (.inl rfl) .nil
  | [_, yes] => .cons (.inl rfl) (.cons (alike_prunedBody stay known yes) .nil)
  | _ :: yes :: no :: ts => .cons (.inl rfl) (.cons (alike_prunedBody stay known yes)
      (.cons (alike_prunedBody stay known no) (alike_refl ts)))

/-- The names that statements define are the same without those that are left out, as far as
functions have them. -/
lemma agree_prunedAll (known : Known) {ts : List Tree} (hts : ∀ t ∈ ts, t.NamedIn names)
    (h : ∀ t ∈ ts, (ofStatement t).Agree names (.ofStatement (pruned names known t))) :
    (ofBlock ts).Agree names (.ofBlock (prunedAll names known ts)) := by
  induction ts with
  | nil => exact .refl (forall_mem_nil _)
  | cons t ts ih =>
    obtain ⟨ht, hrest⟩ := forall_mem_cons.mp h
    obtain ⟨htnamed, htsnamed⟩ := forall_mem_cons.mp hts
    have hrest := ih htsnamed hrest
    rw [ofBlock, prunedAll]
    split
    · rename_i hdropped
      split
      · exact (agree_ofStatement htnamed).union hrest
      · rename_i hstay
        -- the name of a module that is removed is not the name of a function
        have hmodules : ∀ name ∈ names, name ∉ (ofStatement t).modules := fun name hname hmem =>
          hstay (any_eq_true.mpr ⟨name, hmem, contains_iff_mem.mpr hname⟩)
        refine ⟨?_, fun name hname => ?_, fun name hname => ?_⟩
        · show (ofStatement t).functions ++ (ofBlock ts).functions = _
          rw [functions_of_isDropped hdropped, nil_append, hrest.functions]
        · rcases mem_append.mp hname with hname | hname
          · exact htnamed.functions name hname
          · exact hrest.bounded name hname
        · rw [← hrest.modules name hname]
          show name ∈ (ofStatement t).modules ++ (ofBlock ts).modules ↔ _
          rw [mem_append]
          exact or_iff_right (hmodules name hname)
    · exact ht.union hrest

theorem agree_pruned (t : Tree) : ∀ known, t.NamedIn names →
    (ofStatement t).Agree names (.ofStatement (pruned names known t)) := by
  induction t using induction with
  | h kind text pos children ih =>
    intro known ht
    have hself := agree_ofStatement ht
    rw [pruned]
    split <;> rename_i hrule
    · -- a bare block
      rw [ofStatement, ofStatement, hrule]
      exact agree_prunedAll known (fun t hmem => ht.child hmem) fun t hmem =>
        ih t hmem known (ht.child hmem)
    · -- a module, under the same name
      have heq : ofStatement (.node kind text pos (prunedLast names known children)) =
          ofStatement (.node kind text pos children) := by
        rw [ofStatement, ofStatement, hrule,
          find?_alike (alike_prunedLast names known children) (by decide)]
      rwa [heq]
    · rw [ofStatement, ofStatement, hrule]
      exact .refl (forall_mem_nil _)
    · rw [ofStatement, ofStatement, hrule]
      exact .refl (forall_mem_nil _)
    · split
      · exact hself
      · rw [ofStatement, ofStatement, hrule]
        exact .refl (forall_mem_nil _)
    · exact hself

/-! ## Success without what is left out -/

@[simp]
lemma succeeds_own {x : Recording Stop α} {a : α} : Succeeds (own x) a ↔ Succeeds x a :=
  Recording.succeeds_adapt

@[simp]
lemma succeeds_owned {x : Recording Stop α} {a : α} : Succeeds (owned x) a ↔ Succeeds x a :=
  Recording.succeeds_adapt

lemma succeeds_kept {x : Recording Failure Program} :
    Succeeds (kept x) block ↔
      Succeeds x block ∨ (∃ e, x.run.value = .error (.within (.mistake e))) ∧ block = [] := by
  obtain ⟨result, notes⟩ := x
  rcases result with (e | (e | node)) | block'
  · exact ⟨fun h => (nomatch h), by rintro (h | ⟨⟨_, h⟩, -⟩) <;> nomatch h⟩
  · refine ⟨fun h => ?_, ?_⟩
    · cases h
      exact .inr ⟨⟨e, rfl⟩, rfl⟩
    · rintro (h | ⟨-, rfl⟩)
      · nomatch h
      · rfl
  · exact ⟨fun h => (nomatch h), by rintro (h | ⟨⟨_, h⟩, -⟩) <;> nomatch h⟩
  · refine ⟨fun h => .inl (by cases h; rfl), ?_⟩
    rintro (h | ⟨⟨_, h⟩, -⟩)
    · cases h
      rfl
    · nomatch h

/-- A statement that is left out leaves nothing, and one that is not left out succeeds if its block
does. -/
lemma succeeds_kept_statement (h : Succeeds (kept (statement known t)) block) :
    if isDropped known t then block = [] else Succeeds (statement known t) block := by
  rcases succeeds_kept.mp h with h | ⟨he, rfl⟩
  · have hdropped : isDropped known t = false := by
      rw [← Bool.not_eq_true, isDropped_iff]
      rintro ⟨e, he⟩
      exact nomatch h.symm.trans he
    simpa [hdropped] using h
  · simp [isDropped_iff.mpr he]

lemma succeeds_kept_of_isDropped (h : isDropped known t = true) :
    Succeeds (kept (statement known t)) [] :=
  succeeds_kept.mpr (.inr ⟨isDropped_iff.mp h, rfl⟩)

/-- A node that stands for the same statements when what is left out has been removed. -/
structure Prunes (names : List String) (t : Tree) : Prop where
  named : t.NamedIn names
  statement {a b : Known} {block : Program} (h : a.Agree names b)
    (hs : Succeeds (statement a t) block) :
    Succeeds (statement b (pruned names a t)) block
  inside {a b : Known} {block : Program} (h : a.Agree names b) (hs : Succeeds (inside a t) block) :
    Succeeds (inside b (prunedInside names a t)) block

section

variable {a b : Known} (h : a.Agree names b)

include h

/-- Whether a statement is dropped depends on the names only. -/
lemma isDropped_congr (ht : t.NamedIn names) : isDropped a t = isDropped b t := by
  unfold isDropped
  rw [(steady t ht).statement h]

variable {ts : List Tree} {block : Program}

lemma Prunes.statements (hts : ∀ t ∈ ts, Prunes names t) (hs : Succeeds (statements a ts) block) :
    Succeeds (statements b (prunedAll names a ts)) block := by
  induction ts generalizing block with
  | nil => exact hs
  | cons t ts ih =>
    obtain ⟨ht, hrest⟩ := forall_mem_cons.mp hts
    rw [statements] at hs
    simp only [succeeds_bind, succeeds_pure] at hs
    obtain ⟨first, hfirst, rest, hs, rfl⟩ := hs
    have hs := ih hrest hs
    have hfirst := succeeds_kept_statement hfirst
    rw [prunedAll]
    split at hfirst <;> rename_i hdropped
    · subst hfirst
      rw [if_pos hdropped]
      split
      · -- the definition of a module whose name counts stays, and is left out again
        rw [isDropped_congr h ht.named] at hdropped
        rw [statements]
        simp only [succeeds_bind, succeeds_pure]
        exact ⟨[], succeeds_kept_of_isDropped hdropped, rest, hs, rfl⟩
      · exact hs
    · rw [if_neg hdropped, statements]
      simp only [succeeds_bind, succeeds_pure]
      exact ⟨first, succeeds_kept.mpr (.inl (ht.statement h hfirst)), rest, hs, rfl⟩

lemma Prunes.body (ht : Prunes names t)
    (hs : Succeeds (OfTree.body a t (OfTree.inside · t) (OfTree.statement · t)) block) :
    let t' := prunedBody names a t (prunedInside names · t) (pruned names · t)
    Succeeds (OfTree.body b t' (OfTree.inside · t') (OfTree.statement · t')) block := by
  dsimp only
  unfold OfTree.body at hs ⊢
  rw [succeeds_owned, succeeds_map] at hs ⊢
  obtain ⟨statements, hs, rfl⟩ := hs
  refine ⟨statements, ?_, rfl⟩
  unfold prunedBody
  split at hs <;> rename_i hkind
  · -- in braces
    obtain ⟨kind, text, pos, children⟩ := t
    have hagree := agree_prunedAll (a.union (.ofBlock children)) (fun t hmem => ht.named.child hmem)
      fun t hmem =>
      agree_pruned t _ (ht.named.child hmem)
    rw [if_pos hkind, if_pos]
    · exact ht.inside (h.union hagree) hs
    · exact hkind
  · rw [if_neg hkind]
    have hs := succeeds_kept_statement hs
    split at hs <;> rename_i hdropped
    · subst hs
      rw [if_pos hdropped]
      split
      · -- the definition of a module stays
        have hagree := h.union (agree_ofStatement ht.named)
        exact succeeds_kept_of_isDropped (isDropped_congr hagree ht.named ▸ hdropped)
      · rfl
    · have hagree := h.union (agree_pruned t (a.union (.ofStatement t)) ht.named)
      rw [if_neg hdropped, kind_pruned, if_neg hkind]
      exact succeeds_kept.mpr (.inl (ht.statement hagree hs))

lemma Prunes.lastBody (node node' : Tree) (hts : ∀ t ∈ ts, Prunes names t)
    (hs : Succeeds (lastBody a node ts) block) :
    Succeeds (lastBody b node' (prunedLast names a ts)) block := by
  induction ts with
  | nil => exact nomatch hs
  | cons t ts ih =>
    obtain ⟨ht, hts⟩ := forall_mem_cons.mp hts
    cases ts with
    | nil => exact ht.body h hs
    | cons u ts =>
      have hs := ih hts hs
      rw [prunedLast]
      generalize hpruned : prunedLast names a (u :: ts) = us at hs
      cases us with
      | nil => exact nomatch (hpruned ▸ alike_prunedLast names a (u :: ts))
      | cons u' us => exact hs

lemma Prunes.branches (node node' : Tree) {blocks : Program × Program}
    (hts : ∀ t ∈ ts, Prunes names t) (hs : Succeeds (branches a node ts) blocks) :
    Succeeds (OfTree.branches b node' (prunedBranches names a ts)) blocks := by
  match ts with
  | [] => exact nomatch hs
  | [_] => exact nomatch hs
  | [_, yes] =>
    rw [OfTree.branches] at hs
    rw [prunedBranches, OfTree.branches]
    simp only [succeeds_bind, succeeds_pure] at hs ⊢
    obtain ⟨y, hy, rfl⟩ := hs
    exact ⟨y, (hts yes (by simp)).body h hy, rfl⟩
  | _ :: yes :: no :: _ =>
    rw [OfTree.branches] at hs
    rw [prunedBranches, OfTree.branches]
    simp only [succeeds_bind, succeeds_pure] at hs ⊢
    obtain ⟨y, hy, n, hn, rfl⟩ := hs
    exact ⟨y, (hts yes (by simp)).body h hy, n, (hts no (by simp)).body h hn, rfl⟩

end

section

variable {ts us : List Tree} (h : List.Forall₂ Alike ts us) {kind text : String} {pos : Position}

include h

lemma child?_alike {part : String} (hpart : part ∈ partKinds) :
    (node kind text pos ts).child? part = (node kind text pos us).child? part :=
  find?_alike h hpart

/-- Alike nodes have the same name. -/
lemma name_alike : name (.node kind text pos ts) = name (.node kind text pos us) := by
  unfold name
  rw [child?_alike h (by decide)]
  rfl

lemma params_alike : params (.node kind text pos ts) = params (.node kind text pos us) := by
  unfold params
  rw [child?_alike h (by decide)]

lemma value_alike : value (.node kind text pos ts) = value (.node kind text pos us) := by
  rw [value, value, firstExpr_alike h]
  rfl

lemma callArguments_alike : callArguments (.node kind text pos ts) =
    callArguments (.node kind text pos us) := by
  unfold callArguments
  dsimp only [children]
  rw [firstArguments_alike h]
  rfl

lemma isMuted_alike : isMuted (.node kind text pos ts) = isMuted (.node kind text pos us) := by
  unfold isMuted
  rw [child?_alike h (by decide)]

end

/-- What a node gives that succeeds, it gives as well when what is left out of it has been
removed. -/
lemma succeeds_pruned {a b : Known} (h : a.Agree names b) {kind text : String} {pos : Position}
    {children : List Tree} (ht : (node kind text pos children).NamedIn names)
    (hchildren : ∀ t ∈ children, Prunes names t)
    (hs : Succeeds (statement a (.node kind text pos children)) block) :
    Succeeds (statement b (pruned names a (.node kind text pos children))) block := by
  have hlast := alike_prunedLast names a children
  have hbranches := alike_prunedBranches names a children
  rw [pruned]
  split <;> rename_i hrule
  · -- a bare block
    rw [statement, hrule] at hs ⊢
    simp only [succeeds_own] at hs ⊢
    exact Prunes.statements h hchildren hs
  · -- a module
    rw [statement, hrule] at hs ⊢
    rw [name_alike hlast, params_alike hlast] at hs
    simp only [succeeds_bind, succeeds_own, succeeds_pure] at hs ⊢
    obtain ⟨n, hn, ps, hps, body, hbody, rfl⟩ := hs
    exact ⟨n, hn, ps, hps, body, Prunes.lastBody h _ _ hchildren hbody, rfl⟩
  · -- a loop
    rw [statement, hrule] at hs ⊢
    simp only [succeeds_bind, succeeds_own] at hs ⊢
    rw [← bindings_alike hlast]
    obtain ⟨loops, hloops, hs⟩ := hs
    refine ⟨loops, hloops, ?_⟩
    split at hs <;> rename_i hempty
    · rw [succeeds_bind] at hs
      obtain ⟨_, hs, -⟩ := hs
      cases hs
    · rw [if_neg hempty]
      simp only [succeeds_bind, succeeds_pure] at hs ⊢
      obtain ⟨body, hbody, rfl⟩ := hs
      exact ⟨body, Prunes.lastBody h _ _ hchildren hbody, rfl⟩
  · -- a condition
    rw [statement, hrule] at hs ⊢
    rw [value_alike hbranches] at hs
    simp only [succeeds_bind, succeeds_own, succeeds_pure] at hs ⊢
    obtain ⟨c, hc, blocks, hblocks, rfl⟩ := hs
    exact ⟨c, hc, blocks, Prunes.branches h _ _ hchildren hblocks, rfl⟩
  · -- a call
    rw [statement, hrule] at hs
    dsimp only at hs
    split at hs <;> rename_i hmuted
    · rw [if_pos hmuted, statement, hrule]
      dsimp only
      rwa [if_pos hmuted]
    · rw [if_neg hmuted, statement, hrule]
      dsimp only
      rw [if_neg (isMuted_alike hlast ▸ hmuted)]
      rw [name_alike hlast, callArguments_alike hlast] at hs
      simp only [succeeds_bind, succeeds_own] at hs ⊢
      obtain ⟨n, hn, args, hargs, body, hbody, hs⟩ := hs
      refine ⟨n, hn, args, hargs, body, Prunes.lastBody h _ _ hchildren hbody, ?_⟩
      rwa [← h.callsFunction_eq]
  · -- anything else is not pruned
    rwa [← (steady _ ht).statement h]

theorem prunes (t : Tree) : t.NamedIn names → Prunes names t := by
  induction t using induction with
  | h kind text pos children ih =>
    intro ht
    have hchildren : ∀ t ∈ children, Prunes names t := fun t hmem => ih t hmem (ht.child hmem)
    exact ⟨ht, fun h hs => succeeds_pruned h ht hchildren hs,
      fun h hs => Prunes.statements h hchildren hs⟩

/-- The statements of nodes are the same without those that are left out. -/
lemma succeeds_prunedAll {ts : List Tree} (hts : ∀ t ∈ ts, t.NamedIn names)
    (hknown : known.Agree names known)
    (hs : Succeeds (statements (known.union (.ofBlock ts)) ts) block) :
    let us := prunedAll names (known.union (.ofBlock ts)) ts
    Succeeds (statements (known.union (.ofBlock us)) us) block := by
  have hagree := agree_prunedAll (known.union (.ofBlock ts)) hts fun t hmem =>
    agree_pruned t _ (hts t hmem)
  exact Prunes.statements (hknown.union hagree) (fun t hmem => prunes t (hts t hmem)) hs

end OfTree

lemma Program.ofTree_eq_ok {functions : List String} {t : Tree} {program : Program} :
    (ofTree functions t).1 = .ok program ↔
      ∃ block, Succeeds (statements (union { functions } (.ofBlock t.nodes)) t.nodes) block ∧
        hoist block = program := by
  rw [ofTree_eq]
  unfold Succeeds
  generalize (statements (union { functions } (.ofBlock t.nodes)) t.nodes).run.value = result
  cases result with
  | error e => simp [Functor.map, Except.map]
  | ok block => simp [Functor.map, Except.map]

/-- A program is the same without the statements that are left out of it, but for the definitions of
modules that have the name of a function, one that is built in or that the tree defines: those names
keep counting. -/
theorem Program.ofTree_withoutDropped (functions : List String) (t : Tree) (program : Program)
    (h : (ofTree functions t).1 = .ok program) :
    (ofTree functions (t.withoutDropped functions (functions ++ t.functionNames))).1 =
      .ok program := by
  obtain ⟨block, hs, rfl⟩ := ofTree_eq_ok.mp h
  refine ofTree_eq_ok.mpr ⟨block, ?_, rfl⟩
  have ht : t.NamedIn (functions ++ t.functionNames) := fun name hname =>
    List.mem_append_right _ hname
  have hknown : (Known.mk functions []).Agree (functions ++ t.functionNames) ⟨functions, []⟩ :=
    .refl fun name hname => List.mem_append_left _ hname
  generalize functions ++ t.functionNames = names at ht hknown
  unfold withoutDropped
  by_cases hkind : t.kind = "program"
  · obtain ⟨kind, text, pos, children⟩ := t
    have hnodes (ts : List Tree) : (node kind text pos ts).nodes = ts := if_pos hkind
    rw [hnodes] at hs ⊢
    rw [if_pos hkind, prunedInside, hnodes]
    exact succeeds_prunedAll (fun t hmem => ht.child hmem) hknown hs
  · have hnodes : t.nodes = [t] := if_neg hkind
    rw [hnodes] at hs ⊢
    rw [if_neg hkind]
    split
    · rename_i hdropped
      split
      · rwa [hnodes]
      · -- the only statement is left out
        rw [statements] at hs
        simp only [succeeds_bind, succeeds_pure] at hs
        obtain ⟨first, hfirst, rest, hrest, rfl⟩ := hs
        have hfirst := succeeds_kept_statement hfirst
        rw [if_pos hdropped] at hfirst
        cases hfirst
        cases hrest
        rfl
    · rename_i hdropped
      have hs := succeeds_prunedAll (List.forall_mem_singleton.mpr ht) hknown hs
      have hpruned : (pruned names (Known.union ⟨functions, []⟩ (.ofBlock [t])) t).nodes =
          prunedAll names (Known.union ⟨functions, []⟩ (.ofBlock [t])) [t] := by
        unfold nodes
        rw [kind_pruned, if_neg hkind, prunedAll, if_neg hdropped]
        rfl
      rw [hpruned]
      exact hs

/-- A call with a body and without arguments. -/
def bareCall (name : String) (body : Tree) : Tree :=
  .node "operator_call" "" .start [.node "ident" name .start [], .node "call_args" "" .start [],
    body]

def emptyStatement : Tree := .node "empty_stmt" "" .start []

/-- A call that gives an argument twice, so that the block it stands in fails. -/
def repeatingCall : Tree :=
  let size := .node "argument" "" .start [
    .node "named_arg" "" .start [
      .node "ident" "size" .start [], .node "expr" "" .start [.node "number" "1" .start []]]]
  .node "operator_call" "" .start [
    .node "ident" "cube" .start [], .node "call_args" "" .start [size, size], emptyStatement]

/-- The definition of a module with a mistake in its block. -/
def failingModule : Tree :=
  .node "module_def" "" .start [.node "ident" "echo" .start [], .node "params" "" .start [],
    repeatingCall]

/-- A module is left out that has the name of a function, and with it the whole body of a call. -/
def droppedTree : Tree :=
  .node "program" "" .start [
    failingModule, bareCall "union" (bareCall "hull" repeatingCall), bareCall "echo" emptyStatement]

theorem Program.ofTree_withoutDropped_echo :
    droppedTree.withoutDropped ["echo"] (["echo"] ++ droppedTree.functionNames) =
        .node "program" "" .start [failingModule, bareCall "union" emptyStatement,
        bareCall "echo" emptyStatement] ∧
      (ofTree ["echo"] droppedTree).1 =
      .ok [.invoke .start "union" [] [], .invoke .start "echo" [] []] ∧
      (ofTree ["echo"]
      (droppedTree.withoutDropped ["echo"] (["echo"] ++ droppedTree.functionNames))).1 =
        .ok [.invoke .start "union" [] [], .invoke .start "echo" [] []] :=
  ⟨rfl, rfl, ofTree_withoutDropped ["echo"] droppedTree _ rfl⟩

/-- Where that module is removed as well, the last call is one of a function. -/
theorem Program.ofTree_ne_withoutDropped :
    ¬∀ functions t program, (ofTree functions t).1 = .ok program →
      (ofTree functions (t.withoutDropped functions [])).1 = .ok program := by
  intro h
  have hsame :=
    h ["echo"] droppedTree [.invoke .start "union" [] [], .invoke .start "echo" [] []] rfl
  have hpruned : (ofTree ["echo"] (droppedTree.withoutDropped ["echo"] [])).1 =
      .ok [.invoke .start "union" [] [], .evaluate .start (.call .start "echo" [])] := rfl
  cases hpruned.symm.trans hsame

end SolidScript
