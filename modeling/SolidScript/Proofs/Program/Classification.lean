import Mathlib.Data.Set.Basic
import SolidScript.Proofs.Program.Outcome

/-!
# Calls in programs are of the right kind

A call that stands as a statement calls a function or applies an operator, according to the names
that are defined around it. A tree that gives no issues gives a program in which every such call is
of the right kind for the names that its own blocks define.
-/

namespace SolidScript

open List Program Known Statement OfTree

/-! ## Names -/

/-- Names of functions and of modules. -/
@[ext]
structure Names where
  functions : Set String
  modules : Set String

namespace Names

instance : EmptyCollection Names := ⟨⟨∅, ∅⟩⟩

instance : Union Names := ⟨fun a b => ⟨a.functions ∪ b.functions, a.modules ∪ b.modules⟩⟩

@[simp]
lemma mem_functions_union {a b : Names} {name : String} :
    name ∈ (a ∪ b).functions ↔ name ∈ a.functions ∨ name ∈ b.functions := Iff.rfl

@[simp]
lemma mem_modules_union {a b : Names} {name : String} :
    name ∈ (a ∪ b).modules ↔ name ∈ a.modules ∨ name ∈ b.modules := Iff.rfl

@[simp]
lemma functions_empty : (∅ : Names).functions = ∅ := rfl

@[simp]
lemma modules_empty : (∅ : Names).modules = ∅ := rfl

@[simp]
lemma union_empty (a : Names) : a ∪ ∅ = a := Names.ext (Set.union_empty _) (Set.union_empty _)

@[simp]
lemma empty_union (a : Names) : ∅ ∪ a = a := Names.ext (Set.empty_union _) (Set.empty_union _)

lemma union_assoc (a b c : Names) : a ∪ b ∪ c = a ∪ (b ∪ c) :=
  Names.ext (Set.union_assoc _ _ _) (Set.union_assoc _ _ _)

/-- A call of this name that stands as a statement calls a function. -/
def CallsFunction (a : Names) (name : String) : Prop := name ∈ a.functions ∧ name ∉ a.modules

end Names

/-- The names that are known, without their order. -/
def Known.names (known : Known) : Names := ⟨{n | n ∈ known.functions}, {n | n ∈ known.modules}⟩

lemma Known.names_empty : names {} = ∅ := by
  ext n <;> simp [names]

lemma Known.names_union (a b : Known) : (a.union b).names = a.names ∪ b.names := by
  ext n <;> simp [names, union]

/-- A call means a function if the names say so. -/
lemma Known.callsFunction_iff {known : Known} {name : String} :
    known.callsFunction name = true ↔ known.names.CallsFunction name := by
  simp [callsFunction, Names.CallsFunction, names]

/-- The names that a statement defines. -/
def Statement.names : Statement → Names
  | .defineModule _ m => ⟨∅, {m.name}⟩
  | .defineFunction _ f => ⟨{f.name}, ∅⟩
  | _ => ∅

variable {stmt : Statement}

lemma Statement.names_eq_empty (h : stmt.isDefinition = false) : stmt.names = ∅ := by
  cases stmt <;> first | rfl | exact Bool.noConfusion h

/-- A node is seen to define the module that its statement defines. -/
lemma Known.names_module {names : List String} {pos : Position} {m : ModuleDef}
    (h : names = [m.name]) : Known.names { modules := names } = (defineModule pos m).names := by
  subst h
  refine Names.ext (Set.ext fun n => ?_) (Set.ext fun n => mem_singleton)
  exact ⟨fun hn => absurd hn not_mem_nil, fun hn => hn.elim⟩

lemma Known.names_function {names : List String} {pos : Position} {f : FunctionDef}
    (h : names = [f.name]) : Known.names { functions := names } = (defineFunction pos f).names := by
  subst h
  refine Names.ext (Set.ext fun n => mem_singleton) (Set.ext fun n => ?_)
  exact ⟨fun hn => absurd hn not_mem_nil, fun hn => hn.elim⟩

/-- Members of a list with a property, in front of those without it. -/
lemma pairwise_filter_append {α : Type} (p : α → Bool) (xs : List α) :
    (xs.filter p ++ xs.filter (!p ·)).Pairwise fun a b => p b = true → p a = true := by
  -- between the two parts there is nothing to show: whatever stands in front has the property
  refine pairwise_append.mpr ⟨?_, ?_, fun a ha b _ _ => (mem_filter.mp ha).2⟩
  · exact pairwise_of_forall_mem_list fun a ha b _ _ => (mem_filter.mp ha).2
  · refine pairwise_of_forall_mem_list fun a _ b hb hp => ?_
    have hnot := (mem_filter.mp hb).2
    rw [hp] at hnot
    exact Bool.noConfusion hnot

lemma Param.isSome_default_eq : (fun p : Param => p.default.isSome) = fun p =>
    !p.default.isNone := by
  funext p
  cases p.default <;> rfl

namespace Program

/-- The names that the statements of a block define. -/
def names (block : Program) : Names :=
  ⟨{n | ∃ stmt ∈ block, n ∈ stmt.names.functions}, {n | ∃ stmt ∈ block, n ∈ stmt.names.modules}⟩

@[simp]
lemma names_nil : names [] = ∅ := by
  ext n <;> simp [names]

lemma names_cons (stmt : Statement) (rest : Program) :
    names (stmt :: rest) = stmt.names ∪ names rest := by
  ext n <;> simp [names]

/-- Names of a longer block. -/
lemma names_append (block rest : Program) : names (block ++ rest) = names block ∪ names rest := by
  ext n <;> simp [names, or_and_right, exists_or]

lemma names_congr {block block' : Program} (h : ∀ stmt, stmt ∈ block ↔ stmt ∈ block') :
    names block = names block' := by
  ext n <;> simp [names, h]

/-- Definitions stand behind definitions only. -/
def Hoisted (block : Program) : Prop := block.Pairwise fun a b => b.isDefinition → a.isDefinition

lemma mem_hoist {block : Program} : stmt ∈ block.hoist ↔ stmt ∈ block := by
  unfold hoist
  rw [mem_append, mem_filter, mem_filter]
  cases stmt.isDefinition <;> simp

lemma hoisted_hoist (block : Program) : block.hoist.Hoisted := pairwise_filter_append _ block

/-- No definition stands behind a statement that is none. -/
lemma Hoisted.names_eq_empty {rest : Program} (h : Hoisted (stmt :: rest))
    (hstmt : stmt.isDefinition = false) : names (stmt :: rest) = ∅ := by
  have hrest : ∀ other ∈ stmt :: rest, other.names = ∅ := fun other hother => by
    refine Statement.names_eq_empty ?_
    rcases mem_cons.mp hother with rfl | hother
    · exact hstmt
    · refine Bool.eq_false_iff.mpr fun hdef => ?_
      rw [rel_of_pairwise_cons h hother hdef] at hstmt
      exact Bool.noConfusion hstmt
  ext n <;> simp +contextual [names, hrest]

end Program

/-! ## Calls of the right kind -/

mutual

/-- The calls of a statement are of the right kind where these names are visible. Inside the blocks
of the statement the names that they define are visible as well. -/
def Statement.Classified : Names → Statement → Prop
  | _, .assign _ _ _ => True
  | visible, .evaluate _ value =>
    ∃ pos name args, value = .call pos name args ∧ visible.CallsFunction name
  | visible, .invoke _ name _ body =>
    (body = [] → ¬visible.CallsFunction name) ∧ Program.Hoisted body ∧
      ClassifiedAll (visible ∪ Program.names body) body
  | visible, .defineModule _ ⟨_, _, body⟩ =>
    Program.Hoisted body ∧ ClassifiedAll (visible ∪ Program.names body) body
  | _, .defineFunction _ _ => True
  | visible, .branch _ _ yes no =>
    (Program.Hoisted yes ∧ ClassifiedAll (visible ∪ Program.names yes) yes) ∧
      Program.Hoisted no ∧ ClassifiedAll (visible ∪ Program.names no) no
  | visible, .loop _ _ body =>
    Program.Hoisted body ∧ ClassifiedAll (visible ∪ Program.names body) body

/-- The calls of all statements are of the right kind. -/
def Statement.ClassifiedAll : Names → List Statement → Prop
  | _, [] => True
  | visible, stmt :: rest => stmt.Classified visible ∧ ClassifiedAll visible rest

end

/-- A block is classified if its statements are. -/
lemma Statement.classifiedAll_iff {visible : Names} {block : Program} :
    ClassifiedAll visible block ↔ ∀ stmt ∈ block, stmt.Classified visible := by
  induction block with
  | nil => simp [ClassifiedAll]
  | cons stmt rest ih => simp [ClassifiedAll, ih]

/-- A block whose calls are of the right kind inside a block where these names are visible. -/
def Program.Classified (visible : Names) (block : Program) : Prop :=
  block.Hoisted ∧ ClassifiedAll (visible ∪ block.names) block

lemma Statement.classified_defineModule {visible : Names} {pos : Position} {m : ModuleDef} :
    (defineModule pos m).Classified visible ↔ Program.Classified visible m.body := by
  cases m
  exact Iff.rfl

/-! ## Computations without issues -/

/-- What a computation gives, if it succeeds without an issue. -/
def Gives {ε α : Type} (x : Recording ε α) (Q : α → Prop) : Prop := ∀ a, x.run = ⟨.ok a, #[]⟩ → Q a

namespace Gives

variable {ε α β : Type} {x : Recording ε α} {P : α → Prop} {Q : β → Prop}

lemma anything (x : Recording ε α) : Gives x fun _ => True := fun _ _ => trivial

lemma pure {b : β} (h : Q b) : Gives (Pure.pure b : Recording ε β) Q := by
  intro b' hb
  cases hb
  exact h

lemma bind {f : α → Recording ε β} (hx : Gives x P) (hf : ∀ a, P a → Gives (f a) Q) :
    Gives (x >>= f) Q := by
  intro b hb
  obtain ⟨a, ha, hb⟩ := Recording.Yields.of_bind hb
  exact hf a (hx a ha) b hb

lemma map {g : α → β} (hx : Gives x fun a => Q (g a)) : Gives (g <$> x) Q := by
  rw [Recording.map_eq_bind]
  exact hx.bind fun _ => pure

lemma adapt {ε' : Type} {g : ε → ε'} (hx : Gives x P) : Gives (x.adapt g) P := by
  intro a ha
  obtain ⟨e | a', notes⟩ := x
  · nomatch (Noted.mk.inj ha).1
  · obtain ⟨hvalue, hnotes⟩ := Noted.mk.inj ha
    cases hvalue
    exact hx a (congrArg (Noted.mk _) (Array.append_eq_empty_iff.mp hnotes).1)

lemma own {x : Recording Stop α} (hx : Gives x P) : Gives (own x) P := hx.adapt

/-- An error gives no result. -/
lemma throw (e : ε) : Gives (MonadExcept.throw e : Recording ε β) Q :=
  fun _ hb => nomatch (Noted.mk.inj hb).1

/-- What is recorded is an issue. -/
lemma record (e : CompileError) : Gives (record e : Recording ε Unit) fun _ => False := by
  intro b hb
  have hnotes : #[e] ++ #[] = #[] := congrArg Noted.notes hb
  exact absurd (Array.append_eq_empty_iff.mp hnotes).1 (by simp)

/-- A statement that is left out leaves an issue. -/
lemma kept {x : Recording Failure Program} {Q : Program → Prop} (hx : Gives x Q) :
    Gives (kept x) Q := by
  intro block hblock
  obtain ⟨(e | (e | node)) | block', notes⟩ := x
  · nomatch (Noted.mk.inj hblock).1
  · exact absurd (Noted.mk.inj hblock).2 Array.push_ne_empty
  · nomatch (Noted.mk.inj hblock).1
  · obtain ⟨hvalue, hnotes⟩ := Noted.mk.inj hblock
    cases hvalue
    exact hx block (congrArg (Noted.mk _) hnotes)

end Gives

/-! ## Trees -/

namespace OfTree

/-- Parameters without a default come first, and none is lost. -/
lemma perm_sorted (params : List Param) :
    (params.filter (·.default.isNone) ++ params.filter (·.default.isSome)).Perm params := by
  rw [Param.isSome_default_eq]
  exact filter_append_perm _ params

/-- One more argument, whose keyword counts for those behind it. -/
lemma nodup_keywords_cons {seen : List String} {arg : Argument} {args : List Argument}
    (hfresh : ∀ n ∈ arg.name, n ∉ seen) (hnodup : (args.filterMap Argument.name).Nodup)
    (hrest : ∀ n ∈ args.filterMap Argument.name, n ∉ arg.name.toList ++ seen) :
    ((arg :: args).filterMap Argument.name).Nodup ∧
      ∀ n ∈ (arg :: args).filterMap Argument.name, n ∉ seen := by
  have hrest' : ∀ n ∈ args.filterMap Argument.name, n ∉ seen := fun n hn hseen =>
    hrest n hn (mem_append_right _ hseen)
  cases hkeyword : arg.name with
  | none =>
    rw [filterMap_cons_none hkeyword]
    exact ⟨hnodup, hrest'⟩
  | some keyword =>
    rw [filterMap_cons_some hkeyword]
    rw [hkeyword] at hrest
    refine ⟨nodup_cons.mpr ⟨fun hn => hrest keyword hn mem_cons_self, hnodup⟩, ?_⟩
    exact forall_mem_cons.mpr ⟨hfresh keyword hkeyword, hrest'⟩

/-- What the statements of nodes are to be: their calls are of the right kind, and they define what
the nodes were seen to define. -/
def Fitting (known defined : Known) (block : Program) : Prop :=
  (∀ stmt ∈ block, stmt.Classified known.names) ∧ names block = defined.names

lemma fitting_nil (known : Known) : Fitting known {} [] :=
  ⟨forall_mem_nil _, names_nil.trans names_empty.symm⟩

variable {known defined : Known}

lemma fitting_single (h : stmt.Classified known.names)
    (hnames : stmt.names = defined.names) : Fitting known defined [stmt] := by
  refine ⟨fun other hother => mem_singleton.mp hother ▸ h, ?_⟩
  rw [names_cons, names_nil, Names.union_empty]
  exact hnames

/-- Fitting statements are a block of their own, once definitions come first. -/
lemma Fitting.hoist {block : Program} (h : Fitting (known.union defined) defined block) :
    Program.Classified known.names block.hoist := by
  refine ⟨hoisted_hoist block, classifiedAll_iff.mpr fun stmt hstmt => ?_⟩
  rw [names_congr fun _ => mem_hoist, h.2, ← names_union]
  exact h.1 stmt (mem_hoist.mp hstmt)

/-- The block of a node fits inside the names around it. -/
lemma gives_body {t : Tree} {braced : Known → Recording Stop Program}
    {alone : Known → Recording Failure Program}
    (hbraced : ∀ known, Gives (braced known) (Fitting known (.ofBlock t.children)))
    (halone : ∀ known, Gives (alone known) (Fitting known (.ofStatement t))) :
    Gives (body known t braced alone) (Program.Classified known.names) := by
  -- in braces or alone, the names that the statements define are those that were scanned before
  refine .adapt (.map ?_)
  split
  · exact fun block hblock => (hbraced _ block hblock).hoist
  · exact fun block hblock => ((halone _).kept block hblock).hoist

lemma gives_malformed {α : Type} {t : Tree} {detail : String} {Q : α → Prop} :
    Gives (malformed t detail) Q := .throw _

/-- A node that defines a name is seen to define it. -/
lemma gives_name (t : Tree) :
    Gives (name t) fun n => (t.child? "ident").toList.map Tree.text = [n] := by
  unfold name
  split
  · rename_i child hchild
    exact .pure (by simp [hchild])
  · exact gives_malformed

lemma Fitting.append {defined' : Known} {block rest : Program} (h : Fitting known defined block)
    (hrest : Fitting known defined' rest) :
    Fitting known (defined.union defined') (block ++ rest) := by
  refine ⟨fun stmt hstmt => (mem_append.mp hstmt).elim (h.1 stmt) (hrest.1 stmt), ?_⟩
  rw [names_append, h.2, hrest.2, names_union]

mutual

/-- The statements of a node fit. -/
theorem gives_statement :
    ∀ (t : Tree) (known : Known), Gives (statement known t) (Fitting known (.ofStatement t))
  | .node kind text pos children, known => by
    rw [statement, Known.ofStatement]
    cases Grammar.Name.ofKind? kind with
    | none => exact .bind (.record _) fun _ h => h.elim
    | some rule =>
      cases rule
      case emptyStatement => exact .pure (fitting_nil known)
      case block => exact .own (gives_statements children known)
      case assignment =>
        refine .bind (.anything _) fun assigned _ => .bind (.anything _) fun value _ => .pure ?_
        exact fitting_single trivial Known.names_empty.symm
      case moduleDef =>
        refine .bind (.own (gives_name _)) fun defined hdefined => .bind (.anything _)
          fun params _ => ?_
        refine .bind (gives_lastBody _ children known) fun body hbody =>
          .pure (fitting_single hbody ?_)
        exact (Known.names_module hdefined).symm
      case functionDef =>
        refine .bind (.own (gives_name _)) fun defined hdefined => .bind (.anything _)
          fun params _ => ?_
        refine .bind (.anything _) fun value _ => .pure (fitting_single trivial ?_)
        exact (Known.names_function hdefined).symm
      case ifStatement =>
        refine .bind (.anything _) fun condition _ => ?_
        refine .bind (gives_branches _ children known) fun blocks hblocks => .pure ?_
        exact fitting_single hblocks Known.names_empty.symm
      case forStatement =>
        refine .bind (.anything _) fun loops _ => ?_
        dsimp only
        split
        · exact .bind (.own gives_malformed) fun _ (h : False) => h.elim
        · refine .bind (gives_lastBody _ children known) fun body hbody => .pure ?_
          exact fitting_single hbody Known.names_empty.symm
      case operatorCall =>
        -- the kind of a call depends on the names around and on whether statements belong to it
        dsimp only
        split
        · exact .pure (fitting_nil known)
        · refine .bind (.anything _) fun callee _ => .bind (.anything _) fun args _ => ?_
          refine .bind (gives_lastBody _ children known) fun body hbody => ?_
          split
          · rename_i hcalls
            have hcalls := Known.callsFunction_iff.mp (Bool.and_eq_true_iff.mp hcalls).2
            exact .pure (fitting_single ⟨pos, callee, args, rfl, hcalls⟩ Known.names_empty.symm)
          · rename_i hcalls
            refine .pure
              (fitting_single ⟨fun hbody hnot => hcalls ?_, hbody⟩ Known.names_empty.symm)
            rw [hbody, Known.callsFunction_iff.mpr hnot]
            rfl
      all_goals exact .bind (.record _) fun _ h => h.elim

/-- The statements of several nodes fit. -/
theorem gives_statements : ∀ (ts : List Tree) (known : Known), Gives (statements known ts)
    (Fitting known (.ofBlock ts))
  | [], known => .pure (fitting_nil known)
  | t :: ts, known => by
    rw [statements, ofBlock]
    refine .bind (gives_statement t known).kept fun ss hss => ?_
    exact .bind (gives_statements ts known) fun rest hrest => .pure (hss.append hrest)

theorem gives_inside :
    ∀ (t : Tree) (known : Known), Gives (inside known t) (Fitting known (.ofBlock t.children))
  | .node _ _ _ children, known => gives_statements children known

/-- The block in the last node fits inside the names around. -/
theorem gives_lastBody (node : Tree) : ∀ (ts : List Tree) (known : Known),
    Gives (lastBody known node ts) (Program.Classified known.names)
  | [], _ => .own gives_malformed
  | [t], _ => gives_body (gives_inside t) (gives_statement t)
  | _ :: t :: ts, _ => gives_lastBody node (t :: ts) _

/-- Both blocks behind a condition fit. -/
theorem gives_branches (node : Tree) : ∀ (ts : List Tree) (known : Known),
    Gives (branches known node ts) fun blocks =>
      Program.Classified known.names blocks.1 ∧ Program.Classified known.names blocks.2
  | _ :: yes :: no :: _, known => by
    rw [branches]
    refine .bind (gives_body (gives_inside yes) (gives_statement yes)) fun y hy => ?_
    exact .bind (gives_body (gives_inside no) (gives_statement no)) fun n hn => .pure ⟨hy, hn⟩
  | [_, yes], known => by
    rw [branches]
    refine .bind (gives_body (gives_inside yes) (gives_statement yes)) fun y hy => ?_
    exact .pure ⟨hy, .nil, trivial⟩
  | [], _ => .own gives_malformed
  | [_], _ => .own gives_malformed

end

end OfTree

/-- A program that a tree gives without an issue has calls of the right kind only. -/
theorem Program.classified_ofTree {functions : List String} {t : Tree} {program : Program}
    (h : ofTree functions t = (.ok program, #[])) :
    program.Classified (Known.names { functions }) := by
  unfold ofTree at h
  generalize hnodes : (if t.kind = "program" then t.children else [t]) = nodes at h
  have hgives := gives_statements nodes (Known.union { functions } (.ofBlock nodes))
  unfold Gives at hgives
  dsimp only at h
  generalize (statements (Known.union { functions } (.ofBlock nodes)) nodes).run =
    x at h hgives
  obtain ⟨result, issues⟩ := x
  obtain ⟨hresult, rfl⟩ := Prod.mk.inj h
  cases result with
  | error e => cases hresult
  | ok block =>
    cases hresult
    exact (hgives block rfl).hoist

end SolidScript
