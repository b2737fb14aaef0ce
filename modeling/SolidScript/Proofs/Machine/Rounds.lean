import SolidScript.Proofs.Evaluation.Parameters
import SolidScript.Proofs.Machine.Confinement
import SolidScript.Proofs.Range.Bisection

/-!
# Loops visit all combinations

A loop runs its body once for each combination of its variables, in lexicographic order, and each
time in a fresh frame that holds the values of the combination.
-/

namespace SolidScript

open List Arena SolidScript.Stream

open Scopes (Kept)

/-! ## Names that are bound one after the other -/

section

variable {α : Type}

lemma lookup_cons_eq_ite (name : String) (a : α) (bound : List (String × α)) (other : String) :
    ((name, a) :: bound).lookup other = if other = name then some a else bound.lookup other := by
  rw [lookup_cons]
  by_cases h : other = name
  · rw [if_pos h, h, beq_self_eq_true]
  · rw [if_neg h, beq_false_of_ne h]

lemma lookup_bindName (name : String) (a : α) (bound : List (String × α)) (other : String) :
    (bindName name a bound).lookup other = if other = name then some a else bound.lookup other := by
  induction bound with
  | nil => exact lookup_cons_eq_ite name a [] other
  | cons b bound ih =>
    obtain ⟨first, v⟩ := b
    rw [bindName]
    split
    · rename_i hfirst
      rw [lookup_cons_eq_ite, lookup_cons_eq_ite, hfirst]
      split <;> rfl
    · rename_i hfirst
      rw [lookup_cons_eq_ite, lookup_cons_eq_ite, ih]
      by_cases h : other = first
      · rw [if_pos h, if_pos h, if_neg (h ▸ hfirst)]
      · rw [if_neg h, if_neg h]

/-- Of several bindings of a name, the last one counts. -/
lemma lookup_foldl_bindName (vs bound : List (String × α)) (name : String) :
    (vs.foldl (fun bound (n, v) => bindName n v bound) bound).lookup name =
      (vs.reverse.lookup name).or (bound.lookup name) := by
  induction vs generalizing bound with
  | nil => rfl
  | cons b vs ih =>
    obtain ⟨n, v⟩ := b
    rw [foldl_cons, ih, lookup_bindName, reverse_cons, lookup_append, lookup_cons_eq_ite,
      Option.or_assoc]
    congr 1
    split <;> rfl

end

/-! ## What a loop runs over -/

/-- What a loop variable runs over, written out. -/
def Value.elements : Value → List Value
  | .undefined => []
  | .vector items => items
  | .range r => (List.range r.length).map fun i => .number (r.valueAt i)
  | .string s => s.toList.map fun c => .string (String.singleton c)
  | scalar => [scalar]

namespace Domain

lemma size_ofValue (v : Value) : (ofValue v).size = v.elements.length := by
  cases v <;> simp [ofValue, size, Value.elements]

lemma get_ofValue (v : Value) (i : Nat) : (ofValue v).get i = v.elements.getD i .undefined := by
  cases v with
  | range r =>
    rw [ofValue, get, Value.elements, getD_eq_getElem?_getD, getElem?_map]
    split
    · rename_i hi
      rw [getElem?_range hi]
      rfl
    · rename_i hi
      rw [getElem?_eq_none (by rw [length_range]; omega)]
      rfl
  | _ => simp [ofValue, get, Value.elements, getD_eq_getElem?_getD]

end Domain

variable {vs : List Value}

namespace Binding

variable {call : CallFunction} {frame : FrameId} {bindings : List Binding} {w w' : World}

/-- The variables of a loop run over what their expressions give, which are evaluated from left to
right. -/
lemma evalAll_eq (call : CallFunction) (frame : FrameId) (bindings : List Binding) :
    evalAll call frame bindings =
      (fun vs => (bindings.map (·.name)).zip (vs.map Domain.ofValue)) <$>
        bindings.mapM fun b => b.domain.eval call frame := by
  induction bindings with
  | nil => rfl
  | cons b bindings ih => simp [evalAll, ih]

lemma evalAll_of_ok (h : bindings.mapM (fun b => b.domain.eval call frame) w = .ok vs w') :
    evalAll call frame bindings w =
      .ok ((bindings.map (·.name)).zip (vs.map Domain.ofValue)) w' := by
  rw [evalAll_eq]
  show EStateM.map _ (bindings.mapM fun b => b.domain.eval call frame) w = _
  rw [EStateM.map, h]

lemma evalAll_of_error {e : RuntimeError}
    (h : bindings.mapM (fun b => b.domain.eval call frame) w = .error e w') :
    evalAll call frame bindings w = .error e w' := by
  rw [evalAll_eq]
  show EStateM.map _ (bindings.mapM fun b => b.domain.eval call frame) w = _
  rw [EStateM.map, h]

end Binding

/-- Names with the elements at the places where a cursor stands. -/
def combination (names : List String) (vs : List Value) (cursor : Cursor) : List (String × Value) :=
  List.zipWith (fun (name, v) i => (name, v.elements.getD i .undefined)) (names.zip vs) cursor

namespace LoopRange

lemma sizes_zip {names : List String} (h : vs.length = names.length) :
    sizes (names.zip (vs.map Domain.ofValue)) = vs.map (·.elements.length) := by
  have hlength : (vs.map Domain.ofValue).length ≤ names.length := by
    rw [length_map]
    exact Nat.le_of_eq h
  calc sizes (names.zip (vs.map Domain.ofValue))
    _ = ((names.zip (vs.map Domain.ofValue)).map Prod.snd).map Domain.size := by
      rw [map_map]
      rfl
    _ = vs.map (·.elements.length) := by
      rw [map_snd_zip hlength, map_map]
      exact map_congr_left fun v _ => Domain.size_ofValue v

lemma valuesAt_zip (names : List String) (vs : List Value) (cursor : Cursor) :
    valuesAt (names.zip (vs.map Domain.ofValue)) cursor = combination names vs cursor := by
  rw [valuesAt, zip_map_right, zipWith_map_left, combination]
  simp only [Prod.map_fst, Prod.map_snd, id, Domain.get_ofValue]

end LoopRange

/-- All combinations of indices below sizes, in lexicographic order, as a cursor steps through
them. -/
structure Cursor.Enumerates (sizes : List Nat) (cursors : List Cursor) : Prop where
  length : cursors.length = sizes.prod
  mem (cursor : Cursor) : cursor ∈ cursors ↔ List.Forall₂ (· < ·) cursor sizes
  lexicographic : cursors.Pairwise (· < ·)
  after (k : Nat) : Cursor.after sizes k = cursors[k]?

/-- There is no combination where a size is zero. -/
lemma tuples_of_mem_zero {sizes : List Nat} (h : 0 ∈ sizes) : tuples sizes = [] := by
  have hcount : tupleCount sizes = 0 := Nat.eq_zero_of_not_pos fun hpos =>
    tupleCount_pos_iff.mp hpos h
  rw [tuples, hcount]
  rfl

lemma Cursor.enumerates_tuples (sizes : List Nat) : Cursor.Enumerates sizes (tuples sizes) where
  length := (length_tuples sizes).trans (tupleCount_eq_prod sizes)
  mem _ := mem_tuples
  lexicographic := pairwise_tuples sizes
  after := Cursor.after_eq sizes

/-- No position of a combination is past the last element. -/
lemma Cursor.lt_length_of_mem_tuples {cursor : Cursor}
    (h : cursor ∈ tuples (vs.map (·.elements.length))) {i : Nat} {v : Value}
    (hi : (i, v) ∈ cursor.zip vs) : i < v.elements.length := by
  have hforall := forall₂_map_right_iff.mp (mem_tuples.mp h)
  exact (forall₂_iff_zip.mp hforall).2 hi

/-! ## Rounds -/

namespace Context

/-- The body of a loop in a context, with its variables bound. -/
def round (env : Environment) (ctx : Context) (left : Nat) (body : Program)
    (bound : List (String × Value)) : Building :=
  let call := callFunction env left
  let enter := enterModule env left
  inBlock ctx.frame fun id =>
    Eval.build (Eval.write id (.values bound)) fun _ =>
      Statement.buildAll env call enter (askChildren env call enter ctx.offers) ctx.offers id body

section

variable (env : Environment) (ctx : Context) (pos : Position) {bindings : List Binding}
  (body : Program) {w w' : World}

/-- A loop fails if what it is to run over cannot be evaluated. -/
lemma run_loop_of_error {e : RuntimeError}
    (h : bindings.mapM
      (fun b => b.domain.eval (callFunction env (env.host.settings.maxDepth - w.depth)) ctx.frame)
      (w.visit ctx.frame (.run (.loop pos bindings body))) = .error e w') :
    ctx.run env (.loop pos bindings body) w = .fail e w' := by
  unfold Context.run
  dsimp only
  rw [Statement.build, Eval.build, Binding.evalAll_of_error h]

/-- Otherwise it is its rounds, one after the other. -/
lemma run_loop_of_ok
    (h : bindings.mapM
      (fun b => b.domain.eval (callFunction env (env.host.settings.maxDepth - w.depth)) ctx.frame)
      (w.visit ctx.frame (.run (.loop pos bindings body))) = .ok vs w') :
    ctx.run env (.loop pos bindings body) w =
      each
        (fun cursor => ctx.round env (env.host.settings.maxDepth - w.depth) body
          (combination (bindings.map (·.name)) vs cursor))
        (tuples (vs.map (·.elements.length))) w' := by
  have hlength : vs.length = (bindings.map (·.name)).length := by
    rw [length_of_mapM_eq h, length_map]
  unfold Context.run
  dsimp only
  rw [Statement.build, Eval.build, Binding.evalAll_of_ok h]
  simp only [combinations_eq_each, LoopRange.valuesAt_zip, LoopRange.sizes_zip hlength]
  rfl

end

/-- What a round begins with. There is a frame that was not there before, inside the frame of the
loop. It holds the variables with their values, the last one for a name that is bound twice, and
nothing else. All other frames are as they were. The body is run there, and then the frame is
gone. -/
def BeginsRound (env : Environment) (ctx : Context) (left : Nat) (body : Program)
    (bound : List (String × Value)) (w : World) : Prop :=
  let call := callFunction env left
  let enter := enterModule env left
  ∃ (id : FrameId) (w' : World) (values : List (String × Value)),
    get? w.scopes id = none ∧ get? w'.scopes id =
      some { parent := some ctx.frame, values } ∧
      (∀ name, values.lookup name = bound.reverse.lookup name) ∧
      (∀ other, other ≠ id → get? w'.scopes other = get? w.scopes other) ∧
      ctx.round env left body bound w =
        (Statement.buildAll env call enter (askChildren env call enter ctx.offers) ctx.offers id
          body w').atEnd
          (·.closeBlock id)

namespace LiveIn

variable {ctx : Context} {w : World} (h : ctx.LiveIn w.scopes w.blocks) (env : Environment)
  (left : Nat)
  (body : Program)

include h

lemma beginsRound (bound : List (String × Value)) : ctx.BeginsRound env left body bound w := by
  have hopened : get? (w.openInside ctx.frame).2.scopes (w.openInside ctx.frame).1 =
      some { parent := some ctx.frame } := by
    show get? (w.scopes.enter (some ctx.frame)).2 (w.scopes.enter (some ctx.frame)).1 = _
    rw [Scopes.get?_enter h.sound.wellFormed, if_pos rfl]
  refine ⟨(w.openInside ctx.frame).1, (w.openInside ctx.frame).2.write _ (.values bound), _,
    get?_push_id h.sound.wellFormed _, Scopes.get?_write_self _ hopened, fun name => ?_,
    fun other hother => ?_, rfl⟩
  · exact (lookup_foldl_bindName bound [] name).trans (Option.or_none ..)
  · have hother : other ≠ (w.scopes.enter (some ctx.frame)).1 := hother
    show get? ((w.scopes.enter (some ctx.frame)).2.write (w.scopes.enter (some ctx.frame)).1
      _) other = _
    rw [Scopes.get?_write, if_neg hother, Scopes.get?_enter h.sound.wellFormed, if_neg hother]

/-- Whenever some rounds are over, the next one begins in a fresh frame. -/
lemma holds_rounds {β : Type} (bound : β → List (String × Value)) (bs : List β) (b : β) :
    (each (fun b => ctx.round env left body (bound b)) bs w).Holds (fun _ => True)
      (ctx.BeginsRound env left body (bound b)) fun _ _ => True := by
  have hcall := Eval.SteadyIn.callFunction env left
  have hscoped := scoped_ask discipline_liveIn env hcall (scoped_enter discipline_liveIn env left)
    ctx.offers
  have hkeep : ∀ w', Ends Visit.Sound (Kept none) w w' →
      Holding (fun ctx _ => ctx.LiveIn) ctx [.loop .start [] body] w' :=
        fun _ hw => discipline_liveIn.keep_ends h hw
  have hsafe : Building.Safe Visit.Sound none (Kept none)
      (each (fun b => ctx.round env left body (bound b)) bs) w := by
    refine .each ⟨h.sound, .refl none _, rfl, fun _ hv => .inl hv⟩ (fun b w' hw => ?_) bs
    exact discipline_liveIn.round (hkeep w' hw)
      (fun id w hw => hscoped.statements discipline_liveIn id body w hw)
      (bound b)
  exact Run.Holds.mono (fun _ _ => trivial)
    (fun w' hw => (hkeep w' hw).beginsRound env left body (bound b))
    (fun _ _ _ => trivial) hsafe

/-- What a loop runs over is evaluated without a trace in the scopes. -/
lemma of_evalAll {bindings : List Binding} {vars : LoopRange} {w' : World}
    (heval : Binding.evalAll (callFunction env left) ctx.frame bindings w = .ok vars w') :
    ctx.LiveIn w'.scopes w'.blocks := by
  have hclosed := Eval.SteadyIn.closedIn (Eval.SteadyIn.callFunction env left) ctx.frame
  have hsteady := (hclosed.bindings bindings w w.blocks h.sound h.frame_mem).of_ok heval
  have hkeep : Holding (fun ctx _ => ctx.LiveIn) ctx [] w' :=
    discipline_liveIn.keep_ends h (hsteady.ends discipline_liveIn.undemanding)
  exact hkeep

end LiveIn

end Context

/-- The block whose turn it is in a state that a program comes to is run in a live context. -/
lemma Machine.Reachable.liveIn {env : Environment} {program block : Program} {m : Machine}
    (h : Machine.Reachable env program m) {ctx : Context} {K : List Task} (herror : m.error = none)
    (htasks : m.tasks = .block ctx block :: K) : ctx.LiveIn m.world.scopes m.world.blocks := by
  obtain ⟨w, vs, cs, rfl⟩ := Machine.eq_running herror htasks
  have hfits := h.fits (raises_any env)
  have hblocks : w.blocks = Task.blocks K := by
    rw [World.blocks, hfits.stack, Task.filterMap_stack]
    rfl
  have hctx : ctx.Fits w.scopes K := hfits.fits.1
  exact hblocks ▸ hctx.liveIn hfits.sound

namespace Evaluation

/-- Loops visit all combinations. In every state that a program comes to, a loop whose turn it is
evaluates what its variables run over, and fails if that fails. Otherwise it runs its body once for
each combination of indices below the sizes, one after the other in lexicographic order, and not at
all if a size is zero. The combinations are those that a cursor steps through, no position of which
can go up past the greatest count. Whenever the rounds for the first combinations are over, the next
one begins in a fresh frame that holds the values of its combination. -/
theorem loops_visit_combinations (env : Environment) (program : Program) (m : Machine)
    (h : Machine.Reachable env program m) (ctx : Context) (pos : Position) (bindings : List Binding)
    (body rest : Program) (K : List Task) (herror : m.error = none)
    (htasks : m.tasks = .block ctx (.loop pos bindings body :: rest) :: K) :
    let loop : Statement := .loop pos bindings body
    let left := env.host.settings.maxDepth - m.world.depth
    (ctx.run env loop m.world).Traced env (.block ctx rest :: K) m.values m.world.depth
    m.collected m ∧
      match bindings.mapM (fun b => b.domain.eval (callFunction env left) ctx.frame)
        (m.world.visit ctx.frame (.run loop)) with
      | .error e w => ctx.run env loop m.world = .fail e w
      | .ok vs w =>
        let bound := combination (bindings.map (·.name)) vs
        let sizes := vs.map (·.elements.length)
        vs.length = bindings.length ∧
          ∃ cursors : List Cursor, Cursor.Enumerates sizes cursors ∧
            (∀ cursor ∈ cursors, ∀ i r, (i, .range r) ∈ cursor.zip vs → i + 1 ≤ maxCount) ∧
            ctx.run env loop m.world =
              each (fun cursor => ctx.round env left body (bound cursor)) cursors w ∧
            (0 ∈ sizes → ctx.run env loop m.world = .done w) ∧
            ∀ done cursor, done ++ [cursor] <+: cursors →
              (each (fun cursor => ctx.round env left body (bound cursor)) done w).Holds
                (fun _ => True)
                (ctx.BeginsRound env left body (bound cursor)) fun _ _ => True := by
  obtain ⟨w, ts, values, cs, error⟩ := m
  obtain rfl : error = none := herror
  obtain rfl : ts = .block ctx (.loop pos bindings body :: rest) :: K := htasks
  have hlive := h.liveIn rfl rfl
  refine ⟨ctx.traced_run _ rest (h.fits (raises_any env)).limit K values cs, ?_⟩
  dsimp only
  split
  · rename_i e w' hvalues
    exact ctx.run_loop_of_error env pos body hvalues
  · rename_i vs w' hvalues
    have hrun := ctx.run_loop_of_ok env pos body hvalues
    refine ⟨length_of_mapM_eq hvalues, _, Cursor.enumerates_tuples _,
      fun cursor hcursor i r hi => ?_, hrun, fun hzero => ?_, ?_⟩
    · have hlt := Cursor.lt_length_of_mem_tuples hcursor hi
      rw [Value.elements, List.length_map, List.length_range] at hlt
      exact Nat.le_trans hlt r.length_le
    · rw [hrun, tuples_of_mem_zero hzero]
      rfl
    · have hvisited : ctx.LiveIn (w.visit ctx.frame (.run (.loop pos bindings body))).scopes
          w.blocks := hlive
      have hlive' : ctx.LiveIn w'.scopes w'.blocks :=
        hvisited.of_evalAll env _ (Binding.evalAll_of_ok hvalues)
      intro done cursor _
      exact hlive'.holds_rounds env _ body _ done cursor

/-- A loop over two vectors with the same name for both variables. -/
def repeatingLoop : Statement :=
  .loop .start
    [⟨"x", .vector .start [.bool .start true, .bool .start false]⟩,
      ⟨"x", .vector .start [.undefined .start]⟩] []

/-- It has two rounds. In the first one, the name stands for the element of the second vector. -/
theorem loops_visit_combinations_repeated :
    ∃ m ctx w cursors, Machine.Reachable bareEnvironment [repeatingLoop] m ∧
    m.tasks = [.block ctx [repeatingLoop], .leave ctx.frame none] ∧
      Cursor.Enumerates [2, 1] cursors ∧
    cursors.length = 2 ∧
    ctx.BeginsRound bareEnvironment bareEnvironment.host.settings.maxDepth []
      [("x", .bool true), ("x", .undefined)] w := by
  have hreachable : Machine.Reachable bareEnvironment [repeatingLoop] _ := .start
  obtain ⟨-, hloop⟩ :=
    loops_visit_combinations bareEnvironment [repeatingLoop] _ hreachable ⟨⟨0, 0⟩, []⟩ _ _ _
      [] _ rfl rfl
  obtain ⟨-, cursors, hcursors, -, -, -, hrounds⟩ := hloop
  have hfirst : some [0, 0] = cursors.head? := (hcursors.after 0).trans List.head?_eq_getElem?.symm
  obtain ⟨others, rfl⟩ := List.head?_eq_some_iff.mp hfirst.symm
  exact ⟨_, ⟨⟨0, 0⟩, []⟩, _, _, hreachable, rfl, hcursors, hcursors.length,
    hrounds [] [0, 0] ⟨others, rfl⟩⟩

end Evaluation

end SolidScript
