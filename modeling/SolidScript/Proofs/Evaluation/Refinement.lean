import SolidScript.Proofs.Evaluation.OnlyReports

/-!
# Streams refine strict runs

Every part of a program is a stream that does what the strict run of that part does, however often
it is suspended and resumed.
-/

namespace SolidScript

open Outcome Strict

open Eval (OnlyReports)

namespace Outcome

lemma after_after (es fs : List Event) (o : Outcome) :
    (o.after fs).after es = o.after (es ++ fs) := by
  show { o with events := es ++ (fs ++ o.events) } = { o with events := es ++ fs ++ o.events }
  rw [List.append_assoc]

/-- Go on with a strict run where an outcome has no error. -/
def andThen (o : Outcome) (x : Strict) : Outcome :=
  match o.failure with
  | some _ => o
  | none => (x o.world).after o.events

lemma andThen_after (es : List Event) (o : Outcome) (x : Strict) :
    (o.after es).andThen x = (o.andThen x).after es := by
  unfold andThen
  cases h : o.failure with
  | some e => simp only [after, h]
  | none =>
    simp only [show (o.after es).failure = none from h]
    exact (after_after es o.events (x o.world)).symm

end Outcome

namespace Log

@[simp] lemma events_append (a b : Log) : (a ++ b).events = a.events ++ b.events := by
  show (a.entries ++ b.entries).toList.map _ = _
  rw [Array.toList_append, List.map_append]
  rfl

/-- Reports are no geometry. -/
lemma filterMap_geometry_events (log : Log) : log.events.filterMap Event.geometry? = [] := by
  unfold events
  rw [List.filterMap_map]
  exact List.filterMap_eq_nil_iff.mpr fun _ _ => rfl

/-- All of them are entries. -/
lemma filterMap_entry_events (log : Log) :
    log.events.filterMap Event.entry? = log.entries.toList := by
  unfold events
  rw [List.filterMap_map]
  exact List.filterMap_some

end Log

namespace Outcome

/-- So they change nothing of what is yielded. -/
lemma items_after (log : Log) (o : Outcome) : (o.after log.events).items = o.items := by
  show (log.events ++ o.events).filterMap _ = _
  rw [List.filterMap_append, Log.filterMap_geometry_events]
  rfl

lemma reports_after (log : Log) (o : Outcome) :
    (o.after log.events).reports = log.entries.toList ++ o.reports := by
  show (log.events ++ o.events).filterMap _ = _
  rw [List.filterMap_append, Log.filterMap_entry_events]
  rfl

lemma after_append_yield (es : List Event) (g : Geometry Float) (o : Outcome) :
    o.after (es ++ [.yield g]) = (o.after [.yield g]).after es := (after_after es [.yield g] o).symm

end Outcome

namespace Run

/-- A run does what an outcome says. At an item it may be resumed with any log, and what that holds
comes before whatever is seen from then on. -/
def Follows : Run World RuntimeError (Geometry Float) → Outcome → Prop
  | done w, o => o = ⟨w.reports, none, w.quiet⟩
  | fail e w, o => o = ⟨w.reports, some e, w.quiet⟩
  | yield g w next, o =>
    ∃ rest : Outcome, o = rest.after (w.reports ++ [.yield g]) ∧
      ∀ log : Log, (next (w.withLog log)).Follows (rest.after log.events)

end Run

/-- From every state, a building does what the strict run does from the state with an empty log. -/
def Building.Refines (x : Building) (s : Strict) : Prop :=
  ∀ w, (x w).Follows ((s w.quiet).after w.reports)

open Building (Refines)

namespace Run.Follows

variable {r : Run World RuntimeError (Geometry Float)} {o : Outcome}

lemma andThen {x : Building} {s : Strict} (h : r.Follows o) (hx : Refines x s) :
    (r.andThen x).Follows (o.andThen s) := by
  induction r generalizing o with
  | done w =>
    subst h
    exact hx w
  | fail e w =>
    subst h
    rfl
  | yield g w next ih =>
    obtain ⟨rest, rfl, hnext⟩ := h
    -- the rest of the outcome is what goes on, and the log of the resumption stays in front of it
    refine ⟨rest.andThen s, andThen_after _ rest s, fun log => ?_⟩
    rw [← andThen_after]
    exact ih _ (hnext log)

/-- What is done at the end does not depend on the log. -/
lemma atEnd (f : World → World) (hf : ∀ w, f w.quiet = (f w).quiet) (hlog : ∀ w, (f w).log = w.log)
    (h : r.Follows o) : (r.atEnd f).Follows { o with world := f o.world } := by
  have hreports : ∀ w, (f w).reports = w.reports := fun w => by
    unfold World.reports
    rw [hlog]
  induction r generalizing o with
  | done w =>
    subst h
    show _ = mk _ _ _
    rw [hreports, ← hf]
  | fail e w =>
    subst h
    show _ = mk _ _ _
    rw [hreports, ← hf]
  | yield g w next ih =>
    obtain ⟨rest, rfl, hnext⟩ := h
    exact ⟨{ rest with world := f rest.world }, rfl, fun log => ih _ (hnext log)⟩

/-- Collecting a run gives the items of the outcome, and leaves its reports in the log. -/
lemma collect (h : r.Follows o) (acc : Array (Geometry Float)) :
    r.collect acc =
      (match o.failure with
        | some e => .error e
        | none => .ok (acc.toList ++ o.items),
      o.world.withLog ⟨o.reports.toArray⟩) := by
  induction r generalizing o acc with
  | done w =>
    subst h
    have hitems : (⟨w.reports, none, w.quiet⟩ : Outcome).items = [] :=
      Log.filterMap_geometry_events w.log
    have hreports : (⟨w.reports, none, w.quiet⟩ : Outcome).reports = w.log.entries.toList :=
      Log.filterMap_entry_events w.log
    rw [hitems, hreports, List.append_nil]
    rfl
  | fail e w =>
    subst h
    have hreports : (⟨w.reports, some e, w.quiet⟩ : Outcome).reports = w.log.entries.toList :=
      Log.filterMap_entry_events w.log
    rw [hreports]
    rfl
  | yield g w next ih =>
    obtain ⟨rest, rfl, hnext⟩ := h
    -- whoever collects a run resumes it with the log that it stopped with
    show (next w).collect (acc.push g) = _
    rw [ih w (hnext w.log) (acc.push g), after_append_yield]
    unfold World.reports
    simp only [items_after, reports_after, Array.toList_push, List.append_assoc]
    rfl

/-- The state that is left behind has an empty log. -/
lemma quiet (h : r.Follows o) : o.world.quiet = o.world := by
  induction r generalizing o with
  | done w =>
    subst h
    rfl
  | fail e w =>
    subst h
    rfl
  | yield g w next ih =>
    obtain ⟨rest, rfl, hnext⟩ := h
    have h := ih _ (hnext {})
    exact h

end Run.Follows

namespace Building.Refines

variable {α : Type} {x y : Building} {s t : Strict}

lemma empty : Refines .empty .nothing := by
  intro w
  show mk (w.reports ++ []) none w.quiet = _
  rw [List.append_nil]

lemma fail (e : RuntimeError) : Refines (.fail e) (.failing e) := by
  intro w
  show mk (w.reports ++ []) (some e) w.quiet = _
  rw [List.append_nil]

/-- Geometry is yielded in order. -/
lemma ofItems (gs : List (Geometry Float)) : Refines (.ofItems gs) (.yielding gs) := by
  induction gs with
  | nil => exact empty
  | cons g gs ih =>
    intro w
    refine ⟨⟨gs.map .yield, none, w.quiet⟩, ?_, fun log => ih (w.withLog log)⟩
    show mk (w.reports ++ .yield g :: gs.map .yield) none w.quiet =
      ⟨w.reports ++ [.yield g] ++ gs.map .yield, none, w.quiet⟩
    rw [List.append_assoc]
    rfl

lemma once (g : Geometry Float) : Refines (.once g) (.yielding [g]) := ofItems [g]

lemma andThen (hx : Refines x s) (hy : Refines y t) :
    Refines (fun w => (x w).andThen y) (s.andThen t) := by
  intro w
  have h := (hx w).andThen hy
  rw [andThen_after] at h
  exact h

lemma build {x : Eval α} {f : α → Building} {g : α → Strict} (hx : OnlyReports α x)
    (hf : ∀ a, Refines (f a) (g a)) : Refines (Eval.build x f) (.first x g) := by
  intro w
  unfold Eval.build first
  rw [hx w]
  cases x w.quiet with
  | ok a w' =>
    -- what was reported before the computation stays in front of what it reports
    have h := hf a (w'.behind w.log)
    have hreports : (w'.behind w.log).reports = w.reports ++ w'.reports :=
      Log.events_append w.log w'.log
    rw [hreports, ← after_after] at h
    exact h
  | error e w' =>
    show mk (w.log.events ++ w'.log.events) (some e) w'.quiet =
      ⟨(w.log ++ w'.log).events, some e, w'.quiet⟩
    rw [Log.events_append]

/-- What refines in a frame refines with the frame. -/
lemma inBlock {parent : FrameId} {x : FrameId → Building} {s : FrameId → Strict}
    (h : ∀ id, Refines (x id) (s id)) : Refines (inBlock parent x) (.inBlock parent s) := by
  intro w
  exact (h _ (w.openInside parent).2).atEnd (·.closeBlock _) (fun _ => rfl) fun _ => rfl

lemma inBody {parent : FrameId} {block : Program} {x : FrameId → Building} {s : FrameId → Strict}
    (h : ∀ id, Refines (x id) (s id)) :
    Refines (inBody parent block x) (.inBody parent block s) := by
  unfold SolidScript.inBody Strict.inBody
  split
  · exact empty
  · exact inBlock h

/-- The same for calls. -/
lemma inCall {name : String} (h : Refines x s) : Refines (inCall name x) (.inCall name s) := by
  intro w
  exact (h (w.openCall name)).atEnd (·.closeCall) (fun _ => rfl) fun _ => rfl

lemma loop {x : Nat → Building} {s : Nat → Strict} (h : ∀ i, Refines (x i) (s i)) (n i : Nat) :
    Refines (Stream.loop x n i) (.each s (List.range' i n)) := by
  induction n generalizing i with
  | zero => exact empty
  | succ n ih =>
    rw [Stream.loop_succ]
    exact andThen (h i) (ih (i + 1))

lemma collect {f : List (Geometry Float) → Building} {g : List (Geometry Float) → Strict}
    (hx : Refines x s) (hf : ∀ gs, Refines (f gs) (g gs)) :
    Refines (Eval.build (Eval.collect x) f) (s.gather g) := by
  intro w
  have hcollect := (hx w).collect #[]
  have hquiet : (s w.quiet).world.quiet = (s w.quiet).world := (hx w).quiet
  rw [World.reports, reports_after, items_after] at hcollect
  -- the log with which the rest begins: what was in it before, and what the children reported
  set log : Log := ⟨(w.log.entries.toList ++ (s w.quiet).reports).toArray⟩ with hlog
  have hevents : log.events = w.reports ++ (s w.quiet).reports.map .report := List.map_append
  unfold Eval.build Eval.collect gather
  simp only [Stream.drain, Run.drain, hcollect]
  cases hfailure : (s w.quiet).failure with
  | some e =>
    simp only [after, hfailure]
    show _ = mk log.events (some e) (s w.quiet).world.quiet
    rw [hevents, hquiet]
  | none =>
    simp only [after, hfailure]
    have h := hf (s w.quiet).items ((s w.quiet).world.withLog log)
    have hreports : ((s w.quiet).world.withLog log).reports = w.reports ++
        (s w.quiet).reports.map .report := hevents
    rw [hreports, ← after_after] at h
    have hsame : ((s w.quiet).world.withLog log).quiet = (s w.quiet).world := hquiet
    rw [hsame] at h
    exact h

/-- Carrying out a plan, given what the children do. -/
lemma plan (site : CallSite) (hx : Refines x s) (p : Plan) :
    Refines (Plan.build (.ofStream site x) p) (.plan site s p) := by
  cases p with
  | shape g => exact once g
  | relay => exact hx
  | fold join change =>
    refine collect hx fun gs => ?_
    have hsite : (Supply.ofStream site x).site = site := rfl
    rw [hsite]
    cases Plan.joined site join change gs with
    | error e => exact fail e
    | ok result =>
      cases result with
      | none => exact empty
      | some g => exact once g

end Building.Refines

/-! ## Programs -/

/-- Ways to call functions, to enter modules and to ask for children, with their strict meanings. -/
structure Faithful (call : CallFunction) (enter : EnterModule) (ask : AskChildren)
    (enter' : Context → ModuleClosure → CallSite → Arguments → Program → Strict)
    (ask' : FrameId → CallSite → Arguments → Strict) : Prop where
  call (frame : FrameId) (site : CallSite) (args : Arguments) :
    OnlyReports Value (call frame site args)
  enter (ctx : Context) (closure : ModuleClosure) (site : CallSite) (args : Arguments)
    (body : Program) :
    Refines (enter ctx closure site args body) (enter' ctx closure site args body)
  ask (frame : FrameId) (site : CallSite) (args : Arguments) :
    Refines (ask frame site args) (ask' frame site args)

namespace Faithful

variable {env : Environment} {call : CallFunction} {enter : EnterModule} {ask : AskChildren}
  {enter' : Context → ModuleClosure → CallSite → Arguments → Program → Strict}
  {ask' : FrameId → CallSite → Arguments → Strict} {offers : List Offer}

lemma planOf (h : Faithful call enter ask enter' ask') (frame : FrameId) (site : CallSite)
    (args : List Argument) (operator : Builtin.Operator) :
    OnlyReports Plan (planOf env call frame site args operator) :=
  OnlyReports.bind ((OnlyReports.closed.closedIn h.call frame).arguments args) fun _ =>
    OnlyReports.checking _

mutual

/-- Running a statement refines its strict meaning. -/
theorem statement (h : Faithful call enter ask enter' ask') (frame : FrameId) :
    ∀ s : Statement,
    Refines (s.build env call enter ask offers frame)
      (Strict.statement env call enter' ask' offers frame s)
  | .assign _ _ value =>
    .build (.bind ((OnlyReports.closed.closedIn h.call frame).expr value) fun _ => .write frame _)
      fun _ => .empty
  | .evaluate _ value =>
    .build ((OnlyReports.closed.closedIn h.call frame).expr value) fun _ => .empty
  | .defineModule _ _ => .build (.write frame _) fun _ => .empty
  | .defineFunction _ _ => .build (.write frame _) fun _ => .empty
  | .branch _ condition yes no =>
    .build ((OnlyReports.closed.closedIn h.call frame).expr condition) fun c => by
      split
      · exact .inBody fun id => statements h id yes
      · exact .inBody fun id => statements h id no
  | .loop _ bindings body => by
    rw [Statement.build_loop, Strict.statement]
    refine .build ((OnlyReports.closed.closedIn h.call frame).bindings bindings) fun vars => ?_
    rw [List.range_eq_range']
    exact .loop (fun i => .inBlock fun id => .build (.write id _) fun _ => statements h id body)
      vars.count 0
  | .invoke pos name args body => by
    rw [Statement.build, Strict.statement]
    refine .build (.lookUp frame _) fun found => ?_
    cases found with
    | some closure =>
      exact .build ((OnlyReports.closed.closedIn h.call frame).arguments args) fun args =>
        h.enter _ closure _ args body
    | none =>
      dsimp only
      split
      · exact .build ((OnlyReports.closed.closedIn h.call frame).arguments args) fun args =>
          h.ask frame _ args
      · cases env.registry.operators.lookup name with
        | none => exact .fail _
        | some operator =>
          exact .build (h.planOf frame _ args operator) fun p =>
            .plan _ (.inBody fun id => statements h id body) p

/-- Running a block refines running its statements one by one. -/
theorem statements (h : Faithful call enter ask enter' ask') (frame : FrameId) :
    ∀ block : List Statement,
    Refines (Statement.buildAll env call enter ask offers frame block)
      (statements env call enter' ask' offers frame block)
  | [] => .empty
  | s :: rest => by
    rw [Statement.buildAll_cons]
    exact .andThen (fun w => statement h frame s (w.visit frame (.run s))) (statements h frame rest)

end

end Faithful

lemma refines_select (gs : List (Geometry Float)) (site : CallSite) (args : Arguments) :
    Refines (yieldSelected gs site args) (select gs site args) :=
  .build (.reporting _) .ofItems

lemma refines_outside (site : CallSite) : Refines (nothingOffered site) (outside site) :=
  .build (.warn _ site.pos) fun _ => .empty

/-- Asking for children refines its strict meaning, whatever offers there are. -/
lemma refines_ask (env : Environment) {call : CallFunction} {enter : EnterModule}
    {enter' : Context → ModuleClosure → CallSite → Arguments → Program → Strict}
    (hcall : ∀ frame site args, OnlyReports Value (call frame site args))
    (henter : ∀ ctx closure site args body, Refines (enter ctx closure site args body)
      (enter' ctx closure site args body)) (offers : List Offer) :
    ∀ frame site args, Refines (askChildren env call enter offers frame site args)
      (ask env call enter' offers frame site args) := by
  induction offers with
  | nil =>
    intro frame site args
    exact .build (.lookUp frame _) fun _ => refines_outside site
  | cons offer outer ih =>
    intro frame site args
    have hfaithful : Faithful call enter (askChildren env call enter outer) enter'
        (ask env call enter' outer) :=
      ⟨hcall, henter, ih⟩
    rw [askChildren, ask]
    refine .build (.lookUp frame _) fun found => ?_
    cases found with
    | none => exact refines_outside site
    | some state =>
      cases state with
      | ready gs => exact refines_select gs site args
      | forcing => exact .fail _
      | pending =>
        dsimp only
        rw [Offer.build_force]
        refine .build (.write _ _) fun _ =>
          .collect (.inBody fun id => hfaithful.statements id offer.body) fun gs => ?_
        exact .build (.write _ _) fun _ => refines_select gs site args

/-- Entering a module refines its strict meaning, however many calls may be in progress. -/
lemma refines_enter (env : Environment) (left : Nat) :
    ∀ ctx closure site args body,
    Refines (enterModule env left ctx closure site args body)
      (enter env left ctx closure site args body) := by
  induction left with
  | zero => exact fun _ _ _ _ _ => .fail _
  | succ left ih =>
    intro ctx closure site args body
    have hcall := OnlyReports.closed.callFunction env left
    refine .inCall (.build ?_ fun bound => .inBlock fun id => .build ?_ fun _ => ?_)
    · exact .orAt ((OnlyReports.closed.closedIn hcall closure.frame).parameters _ _ _) site.pos
    · exact .bind (.write id _) fun _ => .write id _
    · exact Faithful.statements ⟨hcall, ih, refines_ask env hcall ih _⟩ id _

end SolidScript
