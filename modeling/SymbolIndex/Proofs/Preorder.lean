import SymbolIndex.Proofs.Run

/-!
# Which declarations a walk calls

A step that answers each pair of a declaration and the one around it by a fixed directive makes a walk call
the descendants in preorder, those left out that stand below one which is not entered, up to the first one
that stops it. The collector's own step stops no walk.
-/

namespace SymbolIndex

/-! ## The calls in preorder -/

/-- A declaration in a forest with the one around it, and such pairs for all that it stands below, outermost
first. -/
structure Descendant where
  above : List (Decl × Decl)
  pair : Decl × Decl

def Descendant.below (descendant : Descendant) (pair : Decl × Decl) : Descendant :=
  { descendant with above := pair :: descendant.above }

namespace Forest

def descendants : Forest → Decl → List Descendant
  | nil, _ => []
  | cons decl children rest, parent =>
    ⟨[], (decl, parent)⟩ :: ((children.descendants decl).map (·.below (decl, parent)) ++ rest.descendants parent)

/-- The descendants that stand only below declarations which are entered. -/
def inReach (directive : Decl × Decl → Directive) (forest : Forest) (parent : Decl) : List (Decl × Decl) :=
  ((forest.descendants parent).filter fun d => d.above.all fun pair => directive pair = .enter).map Descendant.pair

end Forest

def throughFirst {α : Type} (p : α → Bool) (l : List α) : List α := l.take (l.findIdx p + 1)

theorem throughFirst_cons {α : Type} (p : α → Bool) (a : α) (l : List α) :
    throughFirst p (a :: l) = if p a then [a] else a :: throughFirst p l := by
  cases h : p a <;> simp [throughFirst, List.findIdx_cons, h]

theorem throughFirst_append {α : Type} (p : α → Bool) (l l' : List α) :
    throughFirst p (l ++ l') = if l.any p then throughFirst p l else l ++ throughFirst p l' := by
  induction l with
  | nil => simp
  | cons a l ih =>
    rw [List.cons_append, throughFirst_cons, throughFirst_cons, ih, List.any_cons]
    cases p a <;> cases l.any p <;> simp

theorem any_throughFirst {α : Type} (p : α → Bool) (l : List α) : (throughFirst p l).any p = l.any p := by
  induction l with
  | nil => rfl
  | cons a l ih =>
    rw [throughFirst_cons, List.any_cons]
    cases h : p a
    · simpa [h] using ih
    · simp [h]

theorem throughFirst_eq_self {α : Type} {p : α → Bool} {l : List α} (h : l.any p = false) : throughFirst p l = l := by
  have hfirst := throughFirst_append p l []
  rw [h, List.append_nil] at hfirst
  simpa [throughFirst] using hfirst

/-- The step that answers by a fixed directive, whatever it does to the state. -/
def answering {σ ε : Type} (next : σ → Decl × Decl → σ) (directive : Decl × Decl → Directive) : WalkStep σ ε :=
  fun s decl parent => (next s (decl, parent), .ok (directive (decl, parent)))

def logging {σ α β : Type} (next : σ → α → σ) (entry : α → β) (state : σ × List β) (a : α) : σ × List β :=
  (next state.1 a, state.2 ++ [entry a])

theorem foldl_logging {σ α β : Type} (next : σ → α → σ) (entry : α → β) (as : List α) :
    ∀ (s : σ) (log : List β), as.foldl (logging next entry) (s, log) = (as.foldl next s, log ++ as.map entry) := by
  induction as with
  | nil => simp
  | cons a as ih => simp [logging, ih]

namespace Forest

variable (directive : Decl × Decl → Directive)

theorem inReach_cons (decl : Decl) (children rest : Forest) (parent : Decl) :
    (cons decl children rest).inReach directive parent = (decl, parent) ::
      ((if directive (decl, parent) = .enter then children.inReach directive decl else []) ++
        rest.inReach directive parent) := by
  unfold inReach
  rw [descendants, List.filter_cons_of_pos (by rfl), List.map_cons, List.filter_append, List.map_append,
    List.filter_map, List.map_map]
  -- below the declaration the test asks about it first
  by_cases henter : directive (decl, parent) = .enter
  · rw [if_pos henter]
    simp [Descendant.below, Function.comp_def, henter]
  · rw [if_neg henter]
    simp [Descendant.below, Function.comp_def, henter]

def called (forest : Forest) (parent : Decl) : List (Decl × Decl) :=
  throughFirst (directive · = .stop) (forest.inReach directive parent)

def stops (forest : Forest) (parent : Decl) : Bool := (forest.called directive parent).any (directive · = .stop)

theorem stops_eq (forest : Forest) (parent : Decl) :
    forest.stops directive parent = (forest.inReach directive parent).any (directive · = .stop) :=
  any_throughFirst ..

section
variable {directive} {decl : Decl} {children rest : Forest} {parent : Decl}

theorem called_of_stop (h : directive (decl, parent) = .stop) :
    (cons decl children rest).called directive parent = [(decl, parent)] := by
  simp [called, inReach_cons, throughFirst_cons, h]

theorem called_of_pass (h : directive (decl, parent) = .pass) :
    (cons decl children rest).called directive parent = (decl, parent) :: rest.called directive parent := by
  simp [called, inReach_cons, throughFirst_cons, h]

theorem called_of_enter (h : directive (decl, parent) = .enter) :
    (cons decl children rest).called directive parent = (decl, parent) :: (children.called directive decl ++
      if children.stops directive decl then [] else rest.called directive parent) := by
  rw [stops_eq]
  simp only [called, inReach_cons, h, if_true, throughFirst_cons, throughFirst_append, reduceCtorEq, decide_false,
    Bool.false_eq_true, if_false]
  split
  · rw [List.append_nil]
  · rename_i hrun
    rw [throughFirst_eq_self (Bool.eq_false_iff.mpr hrun)]

theorem stops_of_pass (h : directive (decl, parent) = .pass) :
    (cons decl children rest).stops directive parent = rest.stops directive parent := by
  simp [stops, called_of_pass h, h]

theorem stops_of_enter (h : directive (decl, parent) = .enter) :
    (cons decl children rest).stops directive parent =
      (children.stops directive decl || rest.stops directive parent) := by
  simp [stops_eq, inReach_cons, h]

end

theorem walk_answering {σ ε : Type} (next : σ → Decl × Decl → σ) : ∀ (forest : Forest) (parent : Decl) (s : σ),
    forest.walk (answering next directive : WalkStep σ ε) parent s =
      ((forest.called directive parent).foldl next s, .ok (!forest.stops directive parent))
  | nil, _, _ => rfl
  | cons decl children rest, parent, s => by
    have hrest := walk_answering (ε := ε) next rest parent
    simp only [walk, answering]
    cases hd : directive (decl, parent) with
    | stop => simp [stops, called_of_stop hd, hd]
    | pass =>
      simp only
      rw [hrest, called_of_pass hd, stops_of_pass hd, List.foldl_cons]
    | enter =>
      simp only
      rw [walk_answering next children decl, called_of_enter hd, stops_of_enter hd, List.foldl_cons, List.foldl_append]
      cases children.stops directive decl with
      | true => rfl
      | false => exact hrest _

theorem walk_recording_answering {σ ε : Type} (next : σ → Decl × Decl → σ) (forest : Forest) (parent : Decl) (s : σ) :
    forest.walk (recording (answering next directive : WalkStep σ ε)) parent (s, []) =
      (((forest.called directive parent).foldl next s,
        (forest.called directive parent).map fun pair => ⟨pair.1, pair.2, some (directive pair)⟩),
        .ok (!forest.stops directive parent)) := by
  have hstep : recording (answering next directive : WalkStep σ ε) =
      answering (logging next fun pair => ⟨pair.1, pair.2, some (directive pair)⟩) directive := rfl
  rw [hstep, walk_answering, foldl_logging, List.nil_append]

end Forest

/-! ## The collector's walks -/

theorem Walks.calls_tops {forest : Forest} {parent : Decl} {c c' : Collector} {calls : List WalkCall}
    (h : Walks forest parent c calls c') :
    (forest.tops.map fun decl => (decl, parent)).Sublist (calls.map fun call => (call.decl, call.parent)) := by
  induction h with
  | nil => exact .slnil
  | pass _ _ _ ih => exact .cons_cons _ ih
  | enter _ _ _ _ _ ih =>
    rw [List.map_cons, List.map_append]
    exact .cons_cons _ (ih.trans (List.sublist_append_right _ _))

/-- A walk whose step answers each pair by a fixed directive calls the descendants of the root in preorder,
left out those below a declaration that is not entered, up to the first pair that stops it; it says `false` just
if some call stopped it. The collector's step never stops a walk: without a broken type its walk says `true`,
and has called every top declaration of the unit. -/
theorem walk_calls_pruned_preorder :
    (∀ {σ ε : Type} (next : σ → Decl × Decl → σ) (directive : Decl × Decl → Directive) (unit : SourceUnit) (s : σ),
      ∃ s' calls finished,
        unit.walk (recording (answering next directive : WalkStep σ ε)) (s, []) = ((s', calls), .ok finished) ∧
        calls.map (fun call => (call.decl, call.parent)) =
          throughFirst (directive · = .stop) (unit.forest.inReach directive unit.root) ∧
        (∀ call ∈ calls, call.directive = some (directive (call.decl, call.parent))) ∧
        (finished = false ↔ ∃ call ∈ calls, call.directive = some .stop)) ∧
    (∀ (c : Collector) (decl : Decl) (parent : Site), (c.visit decl parent).answer ≠ .ok .stop) ∧
    ∀ (c : Collector) (unit : SourceUnit) (finished : Bool), (c.collect unit).2 = .ok finished →
      finished = true ∧ ∃ calls,
        c.collectRecording unit = (((c.collect unit).1, calls), .ok true) ∧
        (unit.forest.tops.map fun decl => (decl, unit.root)).Sublist (calls.map fun call => (call.decl, call.parent)) := by
  refine ⟨?_, Collector.visit_not_stop, ?_⟩
  · intro σ ε next directive unit s
    refine ⟨_, _, _, unit.forest.walk_recording_answering directive next unit.root s, ?_, ?_, ?_⟩
    · rw [List.map_map]
      exact List.map_id _
    · intro call hcall
      obtain ⟨pair, -, rfl⟩ := List.mem_map.mp hcall
      rfl
    · simp [Forest.stops]
  · intro c unit finished hok
    obtain ⟨calls, hrecord⟩ := unit.forest.walk_recording Collector.step unit.root (c.closeTemplates, []) []
    rw [← SourceUnit.walk, ← SourceUnit.walk, ← Collector.collect, hok] at hrecord
    obtain ⟨hfinished, new, hnew, hwalks⟩ := Walks.of_recording hrecord
    rw [List.nil_append] at hnew
    rw [hfinished] at hrecord
    exact ⟨hfinished, calls, hrecord, hnew ▸ hwalks.calls_tops⟩

namespace CutWalk

def whole : Decl := (Decl.wholeFile 0).within 1 .structDecl "Whole"
def skipped : Decl := whole.within 2 .structDecl "Skipped"
def field : Decl := { skipped.within 3 .fieldDecl "f" with type := .builtin {} .int }
def leaf : Decl := { whole.within 4 .fieldDecl "leaf" with type := .builtin {} .int }
def sibling : Decl := (Decl.wholeFile 0).within 5 .structDecl "Sibling"

def unit : SourceUnit where
  root := .wholeFile 0
  forest := .ofList
    [(whole, .ofList [(skipped, .ofList [(field, .nil)]), (leaf, .nil)]), (sibling, .nil)]

def directive (pair : Decl × Decl) : Directive :=
  if pair.1 = leaf then .stop else if pair.1 = skipped then .pass else .enter

end CutWalk

open CutWalk in
theorem walk_cut_at_leaf :
    (∃ s' calls finished,
      unit.walk (recording (answering (fun n _ => n + 1) directive : WalkStep Nat BrokenType)) (0, []) =
        ((s', calls), .ok finished) ∧
      calls.map (fun call => (call.decl, call.parent)) = [(whole, .wholeFile 0), (skipped, whole), (leaf, whole)] ∧
      (finished = false ↔ ∃ call ∈ calls, call.directive = some .stop)) ∧
    ((Collector.start "/" [] {}).collect unit).2 = .ok true ∧
    ∃ calls, (Collector.start "/" [] {}).collectRecording unit =
        ((((Collector.start "/" [] {}).collect unit).1, calls), .ok true) ∧
      [(whole, .wholeFile 0), (sibling, .wholeFile 0)].Sublist (calls.map fun call => (call.decl, call.parent)) := by
  obtain ⟨hwalk, -, hcollect⟩ := walk_calls_pruned_preorder
  obtain ⟨s', calls, finished, hrecord, hpairs, -, hstop⟩ := hwalk (fun n _ => n + 1) directive unit 0
  have hcut : throughFirst (directive · = .stop) (unit.forest.inReach directive unit.root) =
      [(whole, .wholeFile 0), (skipped, whole), (leaf, whole)] := by decide
  have hok : ((Collector.start "/" [] {}).collect unit).2 = .ok true := by rfl
  exact ⟨⟨s', calls, finished, hrecord, hpairs.trans hcut, hstop⟩, hok, (hcollect _ unit true hok).2⟩

end SymbolIndex
