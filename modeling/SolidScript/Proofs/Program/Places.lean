import SolidScript.Proofs.Program.Lowering

/-!
# The places of a program

A set holds the places of a program if it holds those of each statement.
-/

namespace SolidScript

/-- A place of an expression: its own one, or that of one of its parts. -/
def Expr.Mentions (e : Expr) (pos : Position) : Prop :=
  ∃ part : Expr, part.IsPartOf e ∧ part.pos = pos

/-- A place of a program: that of a statement in one of its blocks, or of an expression of such a
statement. -/
def Program.Mentions (program : Program) (pos : Position) : Prop :=
  ∃ block, program.HasBlock block ∧ ∃ stmt ∈ block, stmt.pos = pos ∨
    ∃ e ∈ stmt.exprs, e.Mentions pos

variable {S : Position → Prop}

/-- All places of an expression are in a set. -/
def Expr.Within (S : Position → Prop) (e : Expr) : Prop := ∀ pos, e.Mentions pos → S pos

def Program.Within (S : Position → Prop) (block : Program) : Prop :=
  ∀ pos, block.Mentions pos → S pos

lemma Expr.Within.self {e : Expr} (h : e.Within S) : S e.pos := h _ ⟨e, .self, rfl⟩

/-- With an expression, its parts are in the set. -/
lemma Expr.Within.part {e part : Expr} (h : e.Within S) (hpart : part ∈ e.parts) :
    part.Within S := by
  rintro pos ⟨inner, hinner, rfl⟩
  exact h _ ⟨inner, .inside hpart hinner, rfl⟩

/-- All places of a statement are in a set. -/
structure Statement.Within (S : Position → Prop) (stmt : Statement) : Prop where
  self : S stmt.pos
  exprs : ∀ e ∈ stmt.exprs, e.Within S
  blocks : ∀ block ∈ stmt.blocks, Program.Within S block

namespace Program

/-- Blocks of blocks are blocks. -/
lemma HasBlock.trans {program block inner : Program} (h : program.HasBlock block)
    (h' : block.HasBlock inner) : program.HasBlock inner := by
  induction h' with
  | whole => exact h
  | inside _ hstmt hinner ih => exact ih.inside hstmt hinner

/-- The places of a program are those of its statements. -/
lemma within_iff {block : Program} : block.Within S ↔ ∀ stmt ∈ block, stmt.Within S := by
  constructor
  · refine fun h stmt hstmt => ⟨h _ ⟨block, .whole, stmt, hstmt, .inl rfl⟩, fun e he pos hpos => ?_,
      fun inner hinner pos hpos => ?_⟩
    · exact h _ ⟨block, .whole, stmt, hstmt, .inr ⟨e, he, hpos⟩⟩
    · obtain ⟨b, hb, hmention⟩ := hpos
      exact h _ ⟨b, (HasBlock.whole.inside hstmt hinner).trans hb, hmention⟩
  · rintro h pos ⟨b, hb, stmt, hstmt, hpos⟩
    rcases hb.cases_outside with rfl | ⟨outer, houter, inner, hinner, hb⟩
    · rcases hpos with rfl | ⟨e, he, hpos⟩
      · exact (h stmt hstmt).self
      · exact (h stmt hstmt).exprs e he pos hpos
    · exact (h outer houter).blocks inner hinner pos ⟨b, hb, stmt, hstmt, hpos⟩

lemma Within.cons {stmt : Statement} {rest : Program} (h : Within S (stmt :: rest)) :
    stmt.Within S ∧ Within S rest := by
  obtain ⟨hstmt, hrest⟩ := List.forall_mem_cons.mp (within_iff.mp h)
  exact ⟨hstmt, within_iff.mpr hrest⟩

end Program

/-- The places of defaults are in a set. -/
def Param.Within (S : Position → Prop) (p : Param) : Prop := ∀ e ∈ p.default, e.Within S

structure ModuleDef.Within (S : Position → Prop) (m : ModuleDef) : Prop where
  params : ∀ p ∈ m.params, p.Within S
  body : Program.Within S m.body

structure FunctionDef.Within (S : Position → Prop) (f : FunctionDef) : Prop where
  params : ∀ p ∈ f.params, p.Within S
  body : f.body.Within S

lemma within_params {params : List Param} (h : ∀ e ∈ params.filterMap Param.default, e.Within S) :
    ∀ p ∈ params, p.Within S := fun p hp e he => h e (List.mem_filterMap.mpr ⟨p, hp, he⟩)

namespace Statement.Within

variable {pos : Position}

lemma moduleDef {m : ModuleDef} (h : (Statement.defineModule pos m).Within S) : m.Within S :=
  ⟨within_params h.exprs, h.blocks m.body List.mem_cons_self⟩

/-- Its defaults and its body are in the set. -/
lemma functionDef {f : FunctionDef} (h : (Statement.defineFunction pos f).Within S) :
    f.Within S := by
  obtain ⟨hparams, hbody⟩ := List.forall_mem_append.mp h.exprs
  exact ⟨within_params hparams, List.forall_mem_singleton.mp hbody⟩

end Statement.Within

end SolidScript
