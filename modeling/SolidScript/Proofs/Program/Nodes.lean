import SolidScript.Proofs.Grammar.Tree

/-!
# What nodes of each kind stand for

One equation for each kind of node that stands for an expression or a statement, and for the
children of given kinds that are looked up among others.
-/

namespace SolidScript.OfTree

variable {known : Known} {text : String} {pos : Position} {ns : List Tree}

/-! ## Expressions -/

/-- A number has the value of its text. -/
lemma expr_number : expr (.node "number" text pos ns) =
    match Decimal.read? text with
    | some x => pure (.number pos x)
    | none => malformed (.node "number" text pos ns) "not a number" := rfl

/-- A string is its inner text without the escapes. -/
lemma expr_string : expr (.node "string" text pos ns) =
    pure (.string pos (String.ofList (unescape
      (((Tree.node "string" text pos ns).child? "string_inner").map Tree.text |>.getD
      "").toList))) := rfl

/-- A call of a function has a name and arguments. -/
lemma expr_functionCall : expr (.node "function_call" text pos ns) = (do
    let callee ← name (.node "function_call" text pos ns)
    match ← firstArguments ns with
    | some args => pure (.call pos callee args)
    | none => missing (.node "function_call" text pos ns) "call_args") := rfl

/-! ## Statements -/

/-- Braces give the statements inside of them. -/
lemma statement_block : statement known (.node "block" text pos ns) =
    own (statements known ns) := rfl

/-- An assignment has a name and a value. -/
lemma statement_assignment : statement known (.node "assignment" text pos ns) = (do
    let assigned ← own (name (.node "assignment" text pos ns))
    return [.assign pos assigned (← own (value (.node "assignment" text pos ns)))]) := rfl

/-- A module has a name, parameters and a body. -/
lemma statement_moduleDef : statement known (.node "module_def" text pos ns) = (do
    let defined ← own (name (.node "module_def" text pos ns))
    let params ← own (params (.node "module_def" text pos ns))
    return [.defineModule pos
      ⟨defined, params, ← lastBody known (.node "module_def" text pos ns) ns⟩]) := rfl

/-- A function has a name, parameters and a value. -/
lemma statement_functionDef : statement known (.node "function_def" text pos ns) = (do
    let defined ← own (name (.node "function_def" text pos ns))
    let params ← own (params (.node "function_def" text pos ns))
    return [.defineFunction pos
      ⟨defined, params, ← own (value (.node "function_def" text pos ns))⟩]) := rfl

/-- A branch has a condition and one or two bodies. -/
lemma statement_ifStatement : statement known (.node "if_stmt" text pos ns) = (do
    let condition ← own (value (.node "if_stmt" text pos ns))
    let (yes, no) ← branches known (.node "if_stmt" text pos ns) ns
    return [.branch pos condition yes no]) := rfl

/-- A loop has bindings and a body. -/
lemma statement_forStatement : statement known (.node "for_stmt" text pos ns) = (do
    let loops ← own (bindings ns)
    if loops.isEmpty then own (malformed (.node "for_stmt" text pos ns) "no loop variables")
    return [.loop pos loops (← lastBody known (.node "for_stmt" text pos ns) ns)]) := rfl

/-- A call is an expression if it has no body and its name is that of a function. -/
lemma statement_operatorCall : statement known (.node "operator_call" text pos ns) =
    if isMuted (.node "operator_call" text pos ns) then pure []
    else do
      let callee ← own (name (.node "operator_call" text pos ns))
      let args ← own (callArguments (.node "operator_call" text pos ns))
      let body ← lastBody known (.node "operator_call" text pos ns) ns
      if body.isEmpty && known.callsFunction callee
      then return [.evaluate pos (.call pos callee args)]
      else return [.invoke pos callee args body] := rfl

/-! ## Definitions -/

/-- A definition of a module makes its name known. -/
lemma ofStatement_moduleDef : Known.ofStatement (.node "module_def" text pos ns) =
    { modules := (ns.find? (·.kind = "ident")).toList.map Tree.text } := rfl

/-- A definition of a function makes its name known. -/
lemma ofStatement_functionDef : Known.ofStatement (.node "function_def" text pos ns) =
    { functions := (ns.find? (·.kind = "ident")).toList.map Tree.text } := rfl

variable {kind : String} {t : Tree}

/-! ## Children among others -/

/-- Other nodes are passed over. -/
lemma firstExpr_cons_of_ne (h : t.kind ≠ "expr") : firstExpr (t :: ns) = firstExpr ns := by
  rw [firstExpr, if_neg h]

lemma firstArguments_cons_of_ne (h : t.kind ≠ "call_args") :
    firstArguments (t :: ns) = firstArguments ns := by
  obtain ⟨kind, text, pos, children⟩ := t
  rw [firstArguments, if_neg (show ¬kind = _ from h)]

/-- The first list of arguments is taken. -/
lemma firstArguments_cons (h : t.kind = "call_args") :
    firstArguments (t :: ns) = some <$> arguments [] t.children := by
  obtain ⟨kind, text, pos, children⟩ := t
  rw [firstArguments, if_pos (show kind = _ from h)]
  rfl

/-- The first child of a kind is found. -/
lemma child?_cons {sought : String}
    (h : t.kind = sought) : (Tree.node kind text pos (t :: ns)).child? sought = some t :=
  List.find?_cons_of_pos (by simpa using h)

/-- Children of other kinds are passed over. -/
lemma child?_cons_of_ne {sought : String} (h : t.kind ≠ sought) :
    (Tree.node kind text pos (t :: ns)).child? sought =
      (Tree.node kind text pos ns).child? sought :=
  List.find?_cons_of_neg (by simpa using h)

/-- The last child is the body. -/
lemma lastBody_append (known : Known) (node t : Tree) (ts : List Tree) :
    lastBody known node (ts ++ [t]) = body known t (inside · t) (statement · t) := by
  induction ts with
  | nil => rfl
  | cons u ts ih =>
    obtain ⟨v, vs, hvs⟩ : ∃ v vs, ts ++ [t] = v :: vs :=
      List.exists_cons_of_ne_nil (List.append_ne_nil_of_right_ne_nil ts (List.cons_ne_nil t []))
    rw [hvs] at ih
    rw [List.cons_append, hvs, lastBody, ih]

end SolidScript.OfTree
