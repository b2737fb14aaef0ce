import SolidScript.Proofs.Grammar.Follows
import SolidScript.Proofs.Program.Canonical
import SolidScript.Proofs.Program.Nodes
import SolidScript.Proofs.Program.Outcome
import SolidScript.Proofs.Program.Writable

/-!
# Levels of expressions

Every rule for expressions takes an expression of the next tighter rule as it is, provided that what
follows does not continue it. An expression therefore climbs from the rule that builds it to every
looser one, and in parentheses it starts again as the tightest.

At most levels operations join to the left: the rule reads an operand and then as many steps as
there are. The text of the left operand is such a row of steps itself, so it is not read on its own
but with further steps behind it.
-/

namespace SolidScript

open Grammar List OfTree

open Grammar (Name Peg programs Reads Refuses One Follows)
open Recording (Yields yields_pure)

/-- The computation gives the expression, up to places. -/
def Recovers (x : Recording Stop Expr) (e : Expr) : Prop := ∃ e', Yields x e' ∧
    e'.unplaced = e.unplaced

lemma Recovers.imp {x y : Recording Stop Expr} {e : Expr} (h : Recovers x e)
    (hy : ∀ e', Yields x e' → Yields y e') : Recovers y e :=
  let ⟨e', he', heq⟩ := h
  ⟨e', hy e' he', heq⟩

/-- The node stands for the expression, up to places. -/
def Denotes (t : Tree) (e : Expr) : Prop := Recovers (expr t) e

/-- The rule reads the text as the expression. -/
def ReadsExpr (r : Name) (u k : List Char) (e : Expr) : Prop :=
  Reads false (.rule r) u k (One fun t => (r = .expr → t.kind = "expr") ∧ Denotes t e)

/-! ## Operations that join to the left -/

namespace OfTree

variable {a b : Expr} {ts : List Tree} {t node : Tree}

/-- One more node behind others, each of which is joined to what is in front of it. -/
lemma yields_fold_append {f : Expr → List Tree → Recording Stop Expr}
    (read : Tree → Recording Stop Expr) (join : Tree → Expr → Expr → Expr)
    (hnil : ∀ left, f left [] = pure left)
    (hcons : ∀ left u ts, f left (u :: ts) = read u >>= fun e => f (join u left e) ts)
    (ht : Yields (read t) b) (left a : Expr) (h : Yields (f left ts) a) :
    Yields (f left (ts ++ [t])) (join t a b) := by
  induction ts generalizing left with
  | nil =>
    rw [hnil] at h
    cases h
    rw [nil_append, hcons]
    exact ht.bind (by rw [hnil]; exact yields_pure _)
  | cons u ts ih =>
    rw [hcons] at h
    obtain ⟨e, he, hrest⟩ := h.of_bind
    rw [cons_append, hcons]
    exact he.bind (ih _ hrest)

lemma yields_joined_append {join : Expr → Expr → Expr} (h : Yields (joined node join ts) a)
    (ht : Yields (expr t) b) : Yields (joined node join (ts ++ [t])) (join a b) := by
  cases ts with
  | nil => nomatch h
  | cons u ts =>
    obtain ⟨e, he, hrest⟩ := Yields.of_bind h
    exact he.bind (yields_fold_append expr (fun _ => join) (fun _ => rfl) (fun _ _ _ => rfl) ht
      _ _ hrest)

variable {join : Position → Expr → Expr → Expr}

lemma yields_chain_append {op : Tree} (hop : operation? op.text = some join)
    (ht : Yields (expr t) b) : ∀ (ts : List Tree) (left a : Expr),
    Yields (chain node left ts) a → Yields (chain node left (ts ++ [op, t])) (join op.pos a b)
  | [], left, a, h => by
    cases h
    change Yields (chain node left [op, t]) _
    rw [chain, hop]
    exact ht.bind (yields_pure _)
  | [_], left, a, h => nomatch h
  | op' :: u :: ts, left, a, h => by
    rw [chain] at h
    obtain ⟨e, he, hrest⟩ := h.of_bind
    rw [cons_append, cons_append, chain]
    refine he.bind ?_
    split at hrest
    · exact yields_chain_append hop ht ts _ _ hrest
    · nomatch hrest

lemma yields_chained_append {op : Tree} (hop : operation? op.text = some join)
    (h : Yields (chained node ts) a) (ht : Yields (expr t) b) :
    Yields (chained node (ts ++ [op, t])) (join op.pos a b) := by
  cases ts with
  | nil => nomatch h
  | cons u ts =>
    obtain ⟨e, he, hrest⟩ := Yields.of_bind h
    exact he.bind (yields_chain_append hop ht ts _ _ hrest)

lemma yields_indexed_append (h : Yields (indexed node ts) a)
    (ht : Yields (value t) b) : Yields (indexed node (ts ++ [t])) (.index t.pos a b) := by
  cases ts with
  | nil => nomatch h
  | cons u ts =>
    obtain ⟨e, he, hrest⟩ := Yields.of_bind h
    exact he.bind (yields_fold_append value (.index ·.pos) (fun _ => rfl) (fun _ _ _ => rfl) ht
      _ _ hrest)

end OfTree

/-- A level at which operations join to the left: one operand, and steps behind it. -/
structure Chain where
  level : Name
  operand : Name
  step : Peg Name
  fold : Tree → List Tree → Recording Stop Expr

namespace Chain

variable (ch : Chain)

/-- The nodes of operands and steps stand for the expression, up to places. -/
def Folds (ns : List Tree) (e : Expr) : Prop := ∀ node, Recovers (ch.fold node ns) e

/-- The text is read as operands and steps of the expression, and further steps may follow. -/
def Opens (u : List Char) (e : Expr) : Prop :=
  ∀ v k R, Follows ch.operand (v ++ k) → Reads false (.star ch.step) v k R →
    Reads false (.seq (.rule ch.operand) (.star ch.step)) (u ++ v) k
      fun ns => ∃ xs ys, ns = xs ++ ys ∧ ch.Folds xs e ∧ R ys

/-- The chain is a level of the grammar. -/
structure Proper : Prop where
  form : (programs.rules ch.level).form = .node := by rfl
  body : (programs.rules ch.level).body = .seq (.rule ch.operand) (.star ch.step) := by rfl
  joined : (programs.rules ch.level).joined = false := by rfl
  rank : ch.level.rank = ch.operand.rank + 1 := by rfl
  ne : ch.level ≠ .expr := by decide
  strict : ch.step.isStrict (programs.isStrict 2) = true := by decide
  refuses : ∀ k, Follows ch.level k → Refuses false ch.step k
  single : ∀ t e, Denotes t e → ch.Folds [t] e
  lower : ∀ text pos ns, expr (.node ch.level.kind text pos ns) =
    ch.fold (.node ch.level.kind text pos ns) ns

variable {ch} (hch : ch.Proper) {u w k : List Char} {l e : Expr}

include hch

lemma Proper.opens_single (h : ∀ k, Follows ch.operand k → ReadsExpr ch.operand u k e) :
    ch.Opens u e := by
  intro v k R hfollows hstar
  refine (h (v ++ k) hfollows).seq (gap_nil hfollows.clear) hstar fun xs ys hxs hys => ?_
  obtain ⟨t, rfl, -, ht⟩ := hxs
  exact ⟨[t], ys, rfl, hch.single t e ht, hys⟩

/-- A chain goes on with one more step. -/
lemma Proper.opens_step (hl : ch.Opens u l) (hw : ∀ k, Follows ch.operand (w ++ k))
    (hstep : ∀ k, Follows ch.operand k →
      Reads false ch.step w k fun ys => ∀ xs, ch.Folds xs l → ch.Folds (xs ++ ys) e) :
    ch.Opens (u ++ w) e := by
  intro v k R hfollows hstar
  -- to the operands so far, this step is the first of those that follow
  have hmore : Reads false (.star ch.step) (w ++ v) k
      fun ns => ∃ xs ys, ns = xs ++ ys ∧ (∀ zs, ch.Folds zs l → ch.Folds (zs ++ xs) e) ∧ R ys :=
    .star_append hch.strict (hstep (v ++ k) hfollows) (gap_nil hfollows.clear) hstar
      fun xs ys hxs hys => ⟨xs, ys, rfl, hxs, hys⟩
  have hfront : Follows ch.operand ((w ++ v) ++ k) := by
    rw [append_assoc]
    exact hw (v ++ k)
  rw [append_assoc]
  refine (hl (w ++ v) k _ hfront hmore).imp fun ns hns => ?_
  obtain ⟨xs, _, rfl, hxs, ys, zs, rfl, hys, hzs⟩ := hns
  exact ⟨xs ++ ys, zs, (append_assoc xs ys zs).symm, hys xs hxs, hzs⟩

/-- A chain ends where none of its steps follows. -/
lemma Proper.readsExpr (h : ch.Opens u e) (hk : Follows ch.level k) : ReadsExpr ch.level u k e := by
  have hoperand : Follows ch.operand ([] ++ k) := hk.mono (by rw [hch.rank]; exact Nat.le_succ _)
  have hreads := h [] k (· = []) hoperand (.star_nil (hch.refuses k hk))
  rw [append_nil] at hreads
  refine .node (Q := fun ns => ∃ xs ys, ns = xs ++ ys ∧ ch.Folds xs e ∧ ys = []) hch.form ?_
    fun pos ns hns =>
    ⟨fun hexpr => absurd hexpr hch.ne, ?_⟩
  · rw [hch.body, hch.joined]
    exact hreads
  obtain ⟨xs, _, rfl, hxs, rfl⟩ := hns
  rw [append_nil, Denotes, hch.lower]
  exact hxs _

end Chain

/-! ### The levels -/

open Grammar.Rules (sym)

def orChain : Chain :=
  ⟨.logicOr, .logicAnd, .seq (sym "||") (.rule .logicAnd),
    fun node => joined node (.or node.pos)⟩

def andChain : Chain :=
  ⟨.logicAnd, .equality, .seq (sym "&&") (.rule .equality),
    fun node => joined node (.and node.pos)⟩

/-- A level whose operators stand in the tree. -/
def symbolChain (level operand operator : Name) : Chain :=
  ⟨level, operand, .seq (.rule operator) (.rule operand), chained⟩

def indexChain : Chain := ⟨.postfixed, .primary, .rule .index, indexed⟩

def chains : List Chain :=
  [orChain, andChain, symbolChain .equality .comparison .eqOp,
    symbolChain .comparison .additive .cmpOp, symbolChain .additive .multiplicative .addOp,
    symbolChain .multiplicative .unary .mulOp, indexChain]

lemma proper_of_mem {ch : Chain} (h : ch ∈ chains) : ch.Proper := by
  have hpure {x : Recording Stop Expr} {e : Expr} (h : Recovers x e) : Recovers (x >>= pure) e :=
    h.imp fun e' he' => he'.bind (yields_pure e')
  simp only [chains, mem_cons, not_mem_nil, or_false] at h
  rcases h with rfl | rfl | rfl | rfl | rfl | rfl | rfl
  · exact {
      refuses := fun k hk => .seq (refuses_sym (c := '|') rfl (hk.ne (by decide)))
      single := fun _ _ h _ => hpure h
      lower := fun _ _ _ => rfl }
  · exact {
      refuses := fun k hk => .seq (refuses_sym (c := '&') rfl (hk.ne (by decide)))
      single := fun _ _ h _ => hpure h
      lower := fun _ _ _ => rfl }
  iterate 4
    exact {
      refuses := fun k hk => .seq (.rule (refuses_symbols hk.head (by decide)))
      single := fun _ _ h _ => hpure h
      lower := fun _ _ _ => rfl }
  · exact {
      refuses := fun k hk => .rule (.seq (refuses_sym (c := '[') rfl (hk.ne (by decide))))
      single := fun _ _ h _ => hpure h
      lower := fun _ _ _ => rfl }

/-! ## First characters -/

section

open Grammar.Words (isWordChar isPlain isBlankChar Clear clear_cons)

/-- A character with which an operand without signs starts. -/
def opensOperand (c : Char) : Bool := isWordChar c || ['$', '.', '"', '[', '('].contains c

/-- A character with which an expression starts. -/
def opensExpr (c : Char) : Bool := opensOperand c || ['-', '!'].contains c

/-- The text starts with a character of a class. -/
def StartsWith (p : Char → Bool) (u : List Char) : Prop := ∃ c s, u = c :: s ∧ p c = true

variable {p : Char → Bool} {u : List Char}

lemma StartsWith.imp {q : Char → Bool} (h : StartsWith p u) (hpq : ∀ c, p c = true → q c = true) :
    StartsWith q u :=
  let ⟨c, s, hu, hc⟩ := h
  ⟨c, s, hu, hpq c hc⟩

lemma StartsWith.append (h : StartsWith p u) (v : List Char) : StartsWith p (u ++ v) :=
  let ⟨c, s, hu, hc⟩ := h
  ⟨c, s ++ v, by rw [hu, List.cons_append], hc⟩

/-- No text starts with a character outside the class. -/
lemma StartsWith.head_ne (h : StartsWith p u) {x : Char} (hx : p x = false)
    (k : List Char) : ∀ d ∈ (u ++ k).head?, d ≠ x := by
  obtain ⟨c, s, rfl, hc⟩ := h
  rintro d ⟨⟩ rfl
  rw [hx] at hc
  exact Bool.noConfusion hc

lemma StartsWith.expr (h : StartsWith opensOperand u) : StartsWith opensExpr u :=
  h.imp fun c hc => by rw [opensExpr, hc, Bool.true_or]

lemma isPlain_of_opensExpr {c : Char} (h : opensExpr c = true) : isPlain c = true := by
  rw [isPlain, Bool.and_eq_true_iff, Bool.not_eq_true', decide_eq_true_eq]
  refine ⟨Bool.eq_false_iff.mpr fun hblank => ?_, ?_⟩
  · simp only [isBlankChar, Bool.or_eq_true, decide_eq_true_eq] at hblank
    rcases hblank with ((rfl | rfl) | rfl) | rfl <;> exact absurd h (by decide)
  · rintro rfl
    exact absurd h (by decide)

lemma StartsWith.plainStart (h : StartsWith opensExpr u) : PlainStart u :=
  let ⟨c, s, hu, hc⟩ := h
  ⟨c, s, hu, isPlain_of_opensExpr hc⟩

lemma StartsWith.clear (h : StartsWith opensExpr u) (k : List Char) : Clear (u ++ k) :=
  h.plainStart.clear

end

/-! ## The other levels -/

variable {u k : List Char} {e : Expr}

lemma readsExpr_expr (h : ReadsExpr .ternary u k e) : ReadsExpr .expr u k e := by
  refine .node rfl h fun pos ns hns => ⟨fun _ => rfl, ?_⟩
  obtain ⟨t, rfl, -, ht⟩ := hns
  exact ht

lemma readsExpr_ternary (h : ReadsExpr .logicOr u k e) (hk : Follows .ternary k) :
    ReadsExpr .ternary u k e := by
  have hmark : Refuses false (sym "?") k := refuses_sym (c := '?') rfl (hk.ne (by decide))
  refine .node rfl (h.seq_opt_nil (gap_nil hk.clear) (.seq hmark)) fun pos ns hns => ⟨nofun, ?_⟩
  obtain ⟨t, rfl, -, ht⟩ := hns
  exact ht

/-- A power without an exponent. -/
lemma readsExpr_power (h : ReadsExpr .postfixed u k e) (hk : Follows .power k) :
    ReadsExpr .power u k e := by
  have hmark : Refuses false (sym "^") k := refuses_sym (c := '^') rfl (hk.ne (by decide))
  refine .node rfl (h.seq_opt_nil (gap_nil hk.clear) (.seq hmark)) fun pos ns hns => ⟨nofun, ?_⟩
  obtain ⟨t, rfl, -, ht⟩ := hns
  exact ht

/-! ### Signs -/

/-- The text is read as signs with an operand behind them, and further signs may stand in front. -/
def ReadsSigns (u : List Char) (e : Expr) : Prop :=
  ∀ k, Follows .unary k → Reads false (.seq (.star (.rule .unaryOp)) (.rule .power)) u k
    fun ns => ∀ node, Recovers (signs node ns) e

lemma readsSigns_of_power (hu : StartsWith opensOperand u)
    (h : ∀ k, Follows .power k → ReadsExpr .power u k e) : ReadsSigns u e := by
  intro k hk
  have hhead : ∀ d ∈ (u ++ k).head?, (!opensOperand d) = false := by
    obtain ⟨c, s, rfl, hc⟩ := hu
    rintro d ⟨⟩
    rw [hc]
    rfl
  have hsign : Refuses false (.rule .unaryOp) (u ++ k) :=
    .rule (refuses_symbols (p := fun d => !opensOperand d) hhead (by decide))
  refine .seq (u := []) (.star_nil hsign) (gap_nil (hu.expr.clear k)) (h k (hk.mono (by decide))) ?_
  rintro xs ys rfl ⟨t, rfl, -, ht⟩ node
  exact ht

/-- One more sign in front. -/
lemma ReadsSigns.cons {c : Char} {join : Position → Expr → Expr} (h : ReadsSigns u e)
    (hu : StartsWith opensExpr u)
    (hc : ∀ k, (∀ d ∈ k.head?, d ≠ '=') →
      Reads false (.rule .unaryOp) [c] k (One fun t => ∀ e, signed t e = join t.pos e))
    (hjoin : ∀ pos pos' e e', e'.unplaced = e.unplaced → (join pos e').unplaced =
      (join pos' e).unplaced) (pos : Position) : ReadsSigns (c :: u) (join pos e) := by
  intro k hk
  have hsign := hc (u ++ k) (hu.head_ne (by decide) k)
  refine .star_seq_append (n := 2) (u := [c]) (by decide) hsign (gap_nil (hu.clear k)) (h k hk) ?_
  rintro xs ns ⟨t, rfl, ht⟩ hns node
  obtain ⟨e', he', heq⟩ := hns node
  refine ⟨join t.pos e', ?_, hjoin _ _ _ _ heq⟩
  cases ns with
  | nil => nomatch he'
  | cons t' ns =>
    rw [← ht e']
    exact he'.bind (yields_pure _)

lemma ReadsSigns.readsExpr (h : ReadsSigns u e) (hk : Follows .unary k) : ReadsExpr .unary u k e :=
  .node rfl (h k hk) fun _ _ hns => ⟨nofun, hns _⟩

/-! ## From level to level -/

/-- The rules for expressions, from the loosest one on. -/
def levels : List Name :=
  [.expr, .ternary, .logicOr, .logicAnd, .equality, .comparison, .additive, .multiplicative, .unary,
    .power, .postfixed, .primary]

/-- Every rule takes the next tighter one, as a chain does or in one of four other ways. -/
lemma place_of_rank : ∀ q ∈ levels, ∀ r ∈ levels, r.rank = q.rank + 1 →
    (∃ ch ∈ chains, ch.level = r ∧ ch.operand = q) ∨
      (r, q) ∈ [(Name.expr, Name.ternary), (.ternary, .logicOr), (.unary, .power),
      (.power, .postfixed)] := by
  decide

lemma eq_of_rank : ∀ q ∈ levels, ∀ r ∈ levels, r.rank = q.rank → r = q := by decide

lemma exists_below : ∀ r ∈ levels, r.rank ≠ Name.primary.rank → ∃ q ∈ levels, r.rank =
    q.rank + 1 := by decide

variable {r : Name}

/-- What is read by one rule is read by the next looser one; an operand behind signs has none
itself. -/
lemma climb_step {q : Name} (hq : q ∈ levels) (hr : r ∈ levels) (hrank : r.rank = q.rank + 1)
    (hu : q = .power → StartsWith opensOperand u) (h : ∀ k, Follows q k → ReadsExpr q u k e)
    (hk : Follows r k) : ReadsExpr r u k e := by
  -- what may follow the looser rule may follow the tighter one
  have hfollows : Follows q k := hk.mono (by omega)
  rcases place_of_rank q hq r hr hrank with ⟨ch, hch, rfl, rfl⟩ | hplace
  · have hproper := proper_of_mem hch
    exact hproper.readsExpr (hproper.opens_single h) hk
  · simp only [List.mem_cons, Prod.mk.injEq, List.not_mem_nil, or_false] at hplace
    rcases hplace with ⟨rfl, rfl⟩ | ⟨rfl, rfl⟩ | ⟨rfl, rfl⟩ | ⟨rfl, rfl⟩
    · exact readsExpr_expr (h k hfollows)
    · exact readsExpr_ternary (h k hfollows) hk
    · exact (readsSigns_of_power (hu rfl) h).readsExpr hk
    · exact readsExpr_power (h k hfollows) hk

/-- What is read by one rule is read by every looser one. -/
theorem climb {p : Name} (hp : p ∈ levels) (hr : r ∈ levels) (hrank : p.rank ≤ r.rank)
    (hu : p.rank ≤ Name.power.rank → StartsWith opensOperand u)
    (h : ∀ k, Follows p k → ReadsExpr p u k e) (hk : Follows r k) : ReadsExpr r u k e := by
  -- on the number of levels in between: the last step leads from the level below `r` to `r`
  induction hn : r.rank - p.rank generalizing r k with
  | zero =>
    obtain rfl := eq_of_rank p hp r hr (by omega)
    exact h k hk
  | succ n ih =>
    have hprimary : ∀ q ∈ levels, Name.primary.rank ≤ q.rank := by decide
    obtain ⟨q, hq, hqr⟩ := exists_below r hr (by have := hprimary p hp; omega)
    refine climb_step hq hr hqr (fun hpower => hu (by rw [← hpower]; omega)) (fun k hk => ?_) hk
    exact ih hq (by omega) hk (by omega)

/-! ## Expressions at places -/

variable {numeral : Float → String}

lemma level_mem (e : Expr) : e.level ∈ levels := by
  cases e with
  | binary pos op left right => cases op <;> simp [Expr.level, Arithmetic.level, levels]
  | compare pos op left right => cases op <;> simp [Expr.level, Comparison.level, levels]
  | _ => simp [Expr.level, levels]

/-- How an expression of a level is read by the rule of that level. -/
structure Natural (numeral : Float → String) (e : Expr) : Prop where
  start : StartsWith opensExpr (e.render numeral)
  operand : e.level.rank ≤ Name.power.rank → StartsWith opensOperand (e.render numeral)
  reads : ∀ k, Follows e.level k → ReadsExpr e.level (e.render numeral) k e
  opens : ∀ ch ∈ chains, ch.level = e.level → ch.Opens (e.render numeral) e
  signs : e.level = .unary → ReadsSigns (e.render numeral) e

/-- The text of an expression at the place of a rule. -/
def Expr.textAt (numeral : Float → String) (r : Name) (e : Expr) : List Char :=
  e.placed r (e.render numeral)

/-- How an expression is read at the place of every rule. -/
structure Reread (numeral : Float → String) (e : Expr) : Prop where
  start : ∀ r, StartsWith opensExpr (e.textAt numeral r)
  operand : ∀ r, r.rank ≤ Name.power.rank → StartsWith opensOperand (e.textAt numeral r)
  reads : ∀ r ∈ levels, ∀ k, Follows r k → ReadsExpr r (e.textAt numeral r) k e
  opens : ∀ ch ∈ chains, ch.Opens (e.textAt numeral ch.level) e
  signs : ReadsSigns (e.textAt numeral .unary) e

/-- The forms of operands. -/
def primaries : List (Peg Name) :=
  [.rule .number, .rule .string, .rule .boolean, .rule .undefined, .rule .functionCall,
    .rule .range, .rule .vector, .rule .reference, .seq (sym "(") (.seq (.rule .expr) (sym ")"))]

/-- An operand is read by the first form that matches. -/
lemma readsExpr_primary (n : Nat) {a : Peg Name} (hn : primaries[n]? = some a)
    (hbefore : ∀ b ∈ primaries.take n, Refuses false b (u ++ k))
    (h : Reads false a u k (One fun t => Denotes t e)) : ReadsExpr .primary u k e :=
  .silent rfl (.oneOf n hn hbefore (h.imp fun _ ⟨t, hns, ht⟩ => ⟨t, hns, nofun, ht⟩))

/-- In parentheses, an expression is an operand. -/
lemma readsExpr_parenthesized (hu : StartsWith opensExpr u)
    (h : ∀ k, Follows .expr k → ReadsExpr .expr u k e) :
    ReadsExpr .primary ('(' :: (u ++ [')'])) k e := by
  refine readsExpr_primary 8 rfl (refuses_of_starts (n := 4) (by rfl) (by decide)) ?_
  have hclose : Follows .expr (')' :: k) := follows_cons rfl rfl
  have hinner :
      Reads false (.seq (.rule .expr) (sym ")")) (u ++ [')']) k (One fun t => Denotes t e) :=
    .seq_sym ")" ((h _ hclose).imp fun ns ⟨t, hns, _, ht⟩ => ⟨t, hns, ht⟩) (gap_nil hclose.clear)
  exact .sym_seq "(" (gap_nil ((hu.append [')']).clear k)) hinner

/-- Two places that treat an expression alike. -/
lemma textAt_congr {q : Name} (h : r.rank < e.level.rank ↔ q.rank < e.level.rank) :
    e.textAt numeral r = e.textAt numeral q := by
  unfold Expr.textAt Expr.placed
  simp only [h]

/-- No parentheses where the level is tight enough. -/
lemma textAt_of_le (h : e.level.rank ≤ r.rank) : e.textAt numeral r = e.render numeral :=
  if_neg (Nat.not_lt.mpr h)

lemma textAt_of_lt (h : r.rank < e.level.rank) :
    e.textAt numeral r = '(' :: (e.render numeral ++ [')']) :=
  if_pos h

/-- A text in parentheses starts like an operand. -/
lemma startsWith_textAt {p : Char → Bool} (hp : p '(' = true)
    (h : e.level.rank ≤ r.rank → StartsWith p (e.render numeral)) :
    StartsWith p (e.textAt numeral r) := by
  by_cases hlt : r.rank < e.level.rank
  · exact ⟨'(', _, textAt_of_lt hlt, hp⟩
  · rw [textAt_of_le (Nat.not_lt.mp hlt)]
    exact h (Nat.not_lt.mp hlt)

lemma rank_le_expr : ∀ r ∈ levels, Name.primary.rank ≤ r.rank ∧ r.rank ≤ Name.expr.rank := by decide

/-- Where any expression may stand, none is in parentheses. -/
lemma textAt_expr : e.textAt numeral .expr = e.render numeral :=
  textAt_of_le (rank_le_expr _ (level_mem e)).2

lemma chain_mem_levels : ∀ ch ∈ chains, ch.level ∈ levels ∧ ch.operand ∈ levels := by decide

lemma Natural.readsExpr_textAt (h : Natural numeral e) (hr : r ∈ levels)
    (hk : Follows r k) : ReadsExpr r (e.textAt numeral r) k e := by
  have hlevel := level_mem e
  by_cases hlt : r.rank < e.level.rank
  · -- inside the parentheses the expression climbs to the loosest level, and with them it starts
    -- again as an operand
    have hinner : ∀ k, Follows .expr k → ReadsExpr .expr (e.render numeral) k e := fun k hk =>
      climb hlevel (by decide) (rank_le_expr _ hlevel).2 h.operand h.reads hk
    rw [textAt_of_lt hlt]
    refine climb (p := .primary) (by decide) hr (rank_le_expr r hr).1
      (fun _ => ⟨'(', _, rfl, by decide⟩) ?_ hk
    exact fun k _ => readsExpr_parenthesized h.start hinner
  · rw [textAt_of_le (Nat.not_lt.mp hlt)]
    exact climb hlevel hr (Nat.not_lt.mp hlt) h.operand h.reads hk

/-- An expression that is read by the rule of its level is read at the place of every rule. -/
theorem Natural.reread (h : Natural numeral e) : Reread numeral e := by
  have hlevel := level_mem e
  have hoperand : ∀ r : Name, r.rank ≤ Name.power.rank →
      StartsWith opensOperand (e.textAt numeral r) :=
    fun r hr => startsWith_textAt (by decide) fun hle => h.operand (hle.trans hr)
  have hreads : ∀ r ∈ levels, ∀ k, Follows r k → ReadsExpr r (e.textAt numeral r) k e :=
    fun r hr k hk => h.readsExpr_textAt hr hk
  refine ⟨fun r => startsWith_textAt (by decide) fun _ => h.start, hoperand, hreads,
    fun ch hch => ?_, ?_⟩
  · by_cases heq : ch.level = e.level
    · rw [textAt_of_le (by rw [heq])]
      exact h.opens ch hch heq
    · -- an operation of another level is an operand here, or stands in parentheses in any case
      have hproper := proper_of_mem hch
      obtain ⟨hmem, hmem'⟩ := chain_mem_levels ch hch
      have hne : ch.level.rank ≠ e.level.rank := fun hrank => heq (eq_of_rank _ hlevel _ hmem hrank)
      have hrank := hproper.rank
      rw [textAt_congr (q := ch.operand) (by omega)]
      exact hproper.opens_single (hreads ch.operand hmem')
  · by_cases heq : e.level = .unary
    · rw [textAt_of_le (by rw [heq])]
      exact h.signs heq
    · have hne : e.level.rank ≠ Name.unary.rank :=
        fun hrank => heq (eq_of_rank _ (by decide) _ hlevel hrank)
      have hrank : Name.unary.rank = Name.power.rank + 1 := rfl
      rw [textAt_congr (q := .power) (by omega)]
      exact readsSigns_of_power (hoperand .power (Nat.le_refl _)) (hreads .power (by decide))

lemma Reread.start_render (h : Reread numeral e) : StartsWith opensExpr (e.render numeral) := by
  rw [← textAt_expr]
  exact h.start .expr

/-- Where any expression may stand. -/
lemma Reread.readsExpr (h : Reread numeral e) (hk : Follows .expr k) :
    ReadsExpr .expr (e.render numeral) k e := by
  rw [← textAt_expr]
  exact h.reads .expr (by decide) k hk

lemma level_ne_unary : ∀ ch ∈ chains, ch.level ≠ Name.unary := by decide

/-- An operation of a chain, with its first operand in front. -/
lemma natural_of_opens {ch : Chain} {left : Expr} {w : List Char} (hch : ch ∈ chains)
    (hlevel : ch.level = e.level) (hl : Reread numeral left)
    (hrender : e.render numeral = left.textAt numeral ch.level ++ w)
    (h : ch.Opens (left.textAt numeral ch.level ++ w) e) : Natural numeral e where
  start := by
    rw [hrender]
    exact (hl.start ch.level).append w
  operand hrank := by
    rw [hrender]
    exact (hl.operand ch.level (by rw [hlevel]; exact hrank)).append w
  reads k hk := by
    rw [hrender]
    rw [← hlevel] at hk ⊢
    exact (proper_of_mem hch).readsExpr h hk
  opens ch' hch' hlevel' := by
    have hnodup : (chains.map Chain.level).Nodup := by decide
    rw [inj_on_of_nodup_map hnodup hch' hch (hlevel'.trans hlevel.symm), hrender]
    exact h
  signs hunary := absurd (hlevel.trans hunary) (level_ne_unary ch hch)

/-- An expression that is neither an operation of a chain nor behind signs. -/
lemma natural_of_reads (hlevel : e.level ∈ [Name.ternary, .power, .primary])
    (hstart : StartsWith opensExpr (e.render numeral))
    (hoperand : e.level.rank ≤ Name.power.rank → StartsWith opensOperand (e.render numeral))
    (h : ∀ k, Follows e.level k → ReadsExpr e.level (e.render numeral) k e) :
      Natural numeral e where
  start := hstart
  operand := hoperand
  reads := h
  opens ch hch heq := by
    have hne : ∀ ch ∈ chains, ch.level ∉ [Name.ternary, .power, .primary] := by decide
    exact absurd (heq ▸ hlevel) (hne ch hch)
  signs hunary := by
    rw [hunary] at hlevel
    exact absurd hlevel (by decide)

lemma natural_of_signs (hlevel : e.level = .unary)
    (hstart : StartsWith opensExpr (e.render numeral)) (h : ReadsSigns (e.render numeral) e) :
    Natural numeral e where
  start := hstart
  operand hrank := by
    rw [hlevel] at hrank
    exact absurd hrank (by decide)
  reads k hk := by
    rw [hlevel] at hk ⊢
    exact h.readsExpr hk
  opens ch hch heq := absurd (heq.trans hlevel) (level_ne_unary ch hch)
  signs _ := h

end SolidScript
