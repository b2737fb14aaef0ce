import SolidScript.Proofs.Program.Sources
import SolidScript.Proofs.Program.Statements

/-!
# Writing and reading programs

The canonical text of a program is read as that program, up to places.

Not every program can be written: names have to be names, numbers need numerals, keywords must not
repeat, and calls have to be of the kind that the names around them make them. Programs that source
texts give without an issue are of that kind, and for those the text is read back.
-/

namespace SolidScript

open OfTree

open Grammar (Reads One gap_nil)
open Grammar.Words (clear_nil)
open Recording (Yields)

variable {numeral : Float → String}

namespace Program

/-- Every number of the program is written by a numeral that reads as that number. -/
def WrittenBy (numeral : Float → String) (program : Program) : Prop :=
  ∀ stmt ∈ program, ∀ x, stmt.HasNumber x → Writes (numeral x) x

variable {program : Program}

/-- The text of a program is read as its statements. -/
lemma parse_render (h : ReadsBlock numeral program) :
    ∃ tree, Grammar.parse (program.render numeral) = .ok tree ∧
      List.Forall₂ Means program tree.nodes := by
  have hend : StatementEnd [] := ⟨clear_nil, rfl⟩
  obtain ⟨hstatements, hstart⟩ := reads_statements h hend (.of_nil (n := 4) (by decide))
  have hfinish : Reads false (.rule .finish) [] [] (· = []) := .mark rfl .finish
  have hbody := hstatements.seq (gap_nil hend.clear) hfinish (R := List.Forall₂ Means program)
    fun xs ys hxs hys => by rw [hys, List.append_nil]; exact hxs
  have hreads : Reads false (.rule .program) (Statement.renderAll numeral program) []
      (One fun t => List.Forall₂ Means program t.nodes) := by
    rw [List.append_nil] at hbody
    exact .node rfl (.sym_seq "" (gap_nil hstart.clear) hbody) fun _ _ hns => hns
  obtain ⟨d, ns, hparses, -, tree, rfl, htree⟩ := hreads (.start (program.render numeral).toList)
    (Grammar.Cursor.sound_start _) (by rw [List.append_nil]; exact String.toList_ofList)
  exact ⟨tree, Grammar.parse_eq_ok.mpr ⟨d, hparses⟩, htree⟩

lemma ofTree_eq_ok_iff_yields {functions : List String} {t : Tree} :
    ofTree functions t = (.ok program, #[]) ↔
      Yields (hoist <$> statements (Known.union { functions } (.ofBlock t.nodes)) t.nodes)
      program := by
  rw [ofTree_eq]
  generalize statements (Known.union { functions } (.ofBlock t.nodes)) t.nodes = x
  obtain ⟨result | block, notes⟩ := x
  · constructor
    · intro h
      nomatch congrArg Prod.fst h
    · intro h
      nomatch congrArg Noted.value h
  · constructor
    · intro h
      cases h
      exact Yields.map rfl
    · intro h
      have hnotes : notes ++ #[] = #[] := congrArg Noted.notes h
      exact Prod.ext (congrArg Noted.value h) hnotes

/-- The statements of a program that a source text gives can be written. -/
lemma writable_of_parse {functions : List String} {source : String} {tree : Tree}
    (hparse : Grammar.parse source = .ok tree) (hof : ofTree functions tree = (.ok program, #[])) :
    ∀ stmt ∈ program, stmt.Writable HasNumeral := by
  have hstatements :=
    accepts_statements_of_parse hparse (Known.union { functions } (.ofBlock tree.nodes))
  have hhoist : Accepts WritableBlock (hoist <$> statements _ tree.nodes) :=
    (hstatements.mono (fun block hblock stmt hstmt => hblock stmt (mem_hoist.mp hstmt))
      fun _ he => he).map
  exact hhoist.gives program (congrArg Noted.value (ofTree_eq_ok_iff_yields.mp hof))

/-- Every number of a source text has a numeral. -/
lemma exists_writtenBy (h : ∀ stmt ∈ program, stmt.Writable HasNumeral) :
    ∃ numeral, program.WrittenBy numeral := by
  classical
  have hnumeral (x : Float) : ∃ s, HasNumeral x → Writes s x := by
    by_cases hx : HasNumeral x
    · obtain ⟨s, hs⟩ := hx
      exact ⟨s, fun _ => hs⟩
    · exact ⟨"", fun h => absurd h hx⟩
  choose numeral hwrites using hnumeral
  exact ⟨numeral, fun stmt hstmt x hx => hwrites x ((h stmt hstmt).of_hasNumber hx)⟩

/-- Writing a program and reading it again is the identity. A program that a source text gives
without an issue has a canonical text, and whichever numerals write its numbers, that text is
accepted and gives, without an issue, the same program up to places. -/
theorem ofTree_parse_render {functions : List String} {source : String} {tree : Tree}
    {program : Program} (hparse : Grammar.parse source = .ok tree)
    (hof : ofTree functions tree = (.ok program, #[])) :
    (∃ numeral, program.WrittenBy numeral) ∧
    ∀ numeral, program.WrittenBy numeral →
      ∃ tree' program', Grammar.parse (program.render numeral) = .ok tree' ∧
        ofTree functions tree' = (.ok program', #[]) ∧ program'.unplaced = program.unplaced := by
  have hwritable := writable_of_parse hparse hof
  have hclassified := classified_ofTree hof
  refine ⟨exists_writtenBy hwritable, fun numeral hnumeral => ?_⟩
  have hreads : ReadsBlock numeral program := fun stmt hstmt =>
    Statement.reads_render ((hwritable stmt hstmt).imp (hnumeral stmt hstmt))
      (Statement.classifiedAll_iff.mp hclassified.2 stmt hstmt)
  obtain ⟨tree', hparse', hmeans⟩ := parse_render hreads
  obtain ⟨program', hyields, heq⟩ := yields_hoisted hmeans hclassified
  exact ⟨tree', program', hparse', ofTree_eq_ok_iff_yields.mpr hyields, heq⟩

/-- A text with operators, a string with a quote, calls of both kinds, and bodies without braces. -/
theorem ofTree_parse_render_branch : ∃ tree program,
    Grammar.parse "if (a == 1) len(-(x + 1) ^ 2); else m() c = \"\\\"\";" = .ok tree ∧
    ofTree ["len"] tree = (.ok program, #[]) ∧
    (∃ numeral, program.WrittenBy numeral) ∧
    ∀ numeral, program.WrittenBy numeral →
      ∃ tree' program', Grammar.parse (program.render numeral) = .ok tree' ∧
        ofTree ["len"] tree' = (.ok program', #[]) ∧ program'.unplaced = program.unplaced := by
  obtain ⟨tree, program, hparse, hof⟩ : ∃ tree program,
      Grammar.parse "if (a == 1) len(-(x + 1) ^ 2); else m() c = \"\\\"\";" = .ok tree ∧
      ofTree ["len"] tree = (.ok program, #[]) := by
    refine ⟨?t, ?p, ?h, ?k⟩
    case h =>
      cbv
      rfl
    case k => rfl
  exact ⟨tree, program, hparse, hof, ofTree_parse_render hparse hof⟩

end Program

end SolidScript
