import SymbolIndex.Proofs.AccessInForce
import SymbolIndex.Proofs.Roster

/-!
# The visibility of members

A member of a class has the visibility that the access in force gave it when it was read: that of the
last access specifier before it in the same declaration, or else the one of the declaration's key.
-/

namespace SymbolIndex

inductive MemberKind where
  | constructor
  | method
  | field
  deriving DecidableEq, Repr

def MemberKind.fits : MemberKind → NodeKind → Bool
  | constructor, kind => kind == .constructorDecl
  | method, kind => kind.isMethod
  | field, kind => kind == .fieldDecl || kind == .variableDecl

def Roster.members (r : Roster) : MemberKind → List (String × Visibility)
  | .constructor => r.constructors.map fun m => (m.name, m.visibility)
  | .method => r.methods.map fun m => (m.name, m.visibility)
  | .field => r.fields.map fun f => (f.name, f.visibility)

def Class.members (c : Class) : MemberKind → List (String × Visibility)
  | .constructor => c.constructors.map fun m => (m.name, m.visibility)
  | .method => c.methods.map fun m => (m.name, m.visibility)
  | .field => c.fields.map fun f => (f.name, f.visibility)

theorem Class.roster_members (c : Class) (kind : MemberKind) : c.roster.members kind = c.members kind := by
  cases kind <;> simp [roster, members, Roster.members, Function.comp_def, Method.outline]

def Database.membersOf (fullName : String) (kind : MemberKind) (db : Database) : List (String × Visibility) :=
  (db.roster fullName).members kind

theorem resolveParameter_name {type : TypeTree} {table : List TypeRef} {name : String} {scope : List String}
    {param : Parameter} (h : resolveParameter type table name scope = .ok param) : param.name = name := by
  unfold resolveParameter at h
  split at h
  · cases h
  · cases h
    rfl

theorem ClassEntry.Enrolls.members {owner : ClassEntry} {decl : Decl} {types : List TypeRef} {r r' : Roster}
    (h : owner.Enrolls decl types r r') (kind : MemberKind) :
    r'.members kind = r.members kind ∨
      kind.fits decl.kind = true ∧ r'.members kind = r.members kind ++ [(decl.spelling, owner.access.visibility)] := by
  cases h with
  | constructor signature hk read =>
    cases kind with
    | constructor =>
      right
      simp [Roster.members, MemberKind.fits, hk, Method.outline, methodRecord]
    | method => exact Or.inl rfl
    | field => exact Or.inl rfl
  | method signature hk read =>
    cases kind with
    | constructor => exact Or.inl rfl
    | method =>
      right
      simp [Roster.members, MemberKind.fits, hk, Method.outline, methodRecord]
    | field => exact Or.inl rfl
  | field param hk read fresh =>
    cases kind with
    | constructor => exact Or.inl rfl
    | method => exact Or.inl rfl
    | field =>
      right
      simp [Roster.members, MemberKind.fits, hk, fieldRecord, resolveParameter_name read]

/-- An event appends a member to a class, read off the entry of the class around it. -/
structure Moment.Appends (m : Moment) (fullName : String) (kind : MemberKind) (member : String × Visibility) :
    Prop where
  owned : ∃ owner, m.before.db.classAt? m.parent.place = some owner ∧ owner.fullName = fullName ∧
    member = (m.decl.spelling, owner.access.visibility)
  counted : m.before.counts m.decl = true
  fits : kind.fits m.decl.kind = true
  appended : m.after.db.membersOf fullName kind = m.before.db.membersOf fullName kind ++ [member]

theorem Moment.members_step (m : Moment) (fullName : String) (kind : MemberKind) :
    m.after.db.membersOf fullName kind = m.before.db.membersOf fullName kind ∨
      ∃ member, m.Appends fullName kind member ∧
        m.after.db.membersOf fullName kind = m.before.db.membersOf fullName kind ++ [member] := by
  rcases m.roster_step fullName with hsame | ⟨owner, known, hname, counted, henrolls⟩
  · exact Or.inl (congrArg (Roster.members · kind) hsame)
  · rcases henrolls.members kind with hsame | ⟨fits, happended⟩
    · exact Or.inl hsame
    · exact Or.inr ⟨_, ⟨⟨owner, known, hname, rfl⟩, counted, fits, happended⟩, happended⟩

theorem Collector.member_appended {c state : Collector} {units : List SourceUnit} (empty : c.db.classes = [])
    (reached : state ∈ c.states units) {entry : ClassEntry} (known : entry ∈ state.db.classes) {kind : MemberKind}
    {i : Nat} {member : String × Visibility} (at_i : (entry.record.members kind)[i]? = some member) :
    ∃ m ∈ c.history units, m.Appends entry.fullName kind member ∧
      (m.before.db.membersOf entry.fullName kind).length = i := by
  have hunique : state.db.UniqueClasses := by
    apply states_invariant (fun c' decl parent _ hu => hu.visit c' decl parent) _ state reached
    rw [Database.UniqueClasses, Database.classMarks, empty]
    exact List.nodup_nil
  obtain ⟨ms, hms, hchained⟩ := chained_of_mem_states reached
  have hmember : (state.db.membersOf entry.fullName kind)[i]? = some member := by
    rw [Database.membersOf, Database.roster, hunique.findClass? known, Option.map_some, Option.getD_some,
      Class.roster_members]
    exact at_i
  rcases hchained.origin (fun m => m.members_step entry.fullName kind) hmember with hold | ⟨m, hm, happends, hlength⟩
  · rw [Database.membersOf, Database.roster, Database.findClass?, empty] at hold
    cases kind <;> cases hold
  · exact ⟨m, hms m hm, happends, hlength⟩

/-- **The visibility of members.** In every state of a run, each constructor, method and field of a class was
appended by an event at a child of a declaration of that class, and has the visibility of the access in
force there: that of the last access specifier, in a file that counts, among the older siblings, or else
public for a struct and private for any other class. -/
theorem visibility_is_access_in_force {base : String} {roots : List String} {units : List SourceUnit}
    (wf : WellFormed units) (placed : NamespacesPlaced units) (files : FilesAtRoots units) {state : Collector}
    (reached : state ∈ (Collector.start base roots {}).states units) {entry : ClassEntry}
    (known : entry ∈ state.db.classes) {kind : MemberKind} {i : Nat} {name : String} {visibility : Visibility}
    (member : (entry.record.members kind)[i]? = some (name, visibility)) :
    ∃ m ∈ (Collector.start base roots {}).history units,
      (m.before.db.membersOf entry.fullName kind).length = i ∧
      m.after.db.membersOf entry.fullName kind =
        m.before.db.membersOf entry.fullName kind ++ [(name, visibility)] ∧
      kind.fits m.decl.kind = true ∧ m.decl.spelling = name ∧ m.parent.site.Declares entry.fullName ∧
      ∃ unit ∈ units, ∃ siblings, (m.parent, siblings) ∈ unit.forest.nodes ∧
        ∃ older children newer, siblings.toList = older ++ (m.decl, children) :: newer ∧
          visibility = ((Collector.start base roots {}).accessAfter m.parent (older.map Prod.fst)).visibility := by
  obtain ⟨m, hm, happends, hlength⟩ := Collector.member_appended rfl reached known member
  obtain ⟨owner, hat, hname, hmember⟩ := happends.owned
  obtain ⟨hspelling, hvisibility⟩ := Prod.mk.inj hmember
  have hempty : (Collector.start base roots {}).db.UniqueClasses := List.nodup_nil
  obtain ⟨hbase, hroots, hunique⟩ := Collector.history_settings hempty m hm
  obtain ⟨unit, hu, older, children, rest, hunderway⟩ :=
    wf.underway placed files (fun _ h => h) (Named.empty _ base roots) m hm
  have hdeclares : m.parent.site.Declares entry.fullName :=
    hname ▸ (hunderway.situated wf hu).declares_of_classAt? hat
  obtain ⟨siblings, hnode, hlist⟩ := hunderway.ahead.node (wf.rooted unit hu).1 hdeclares.1
  refine ⟨m, hm, hlength, happends.appended, happends.fits, hspelling.symm, hdeclares, unit, hu, siblings, hnode, older,
    children, rest.toList, hlist, ?_⟩
  rw [hvisibility, hunderway.access_of_classAt? wf hu hunique hat, Collector.accessAfter_congr hbase hroots]

namespace NestedAccess

def forward : Decl := (Decl.wholeFile 0).within 1 .structDecl "S"
def whole : Decl := (Decl.wholeFile 0).within 2 .classDecl "S"
def inner : Decl := whole.within 3 .structDecl "In"

def access (serial : Nat) (owner : Decl) (access : Access) : Decl :=
  { owner.within serial .accessSpec "" with access := access }

def data (serial : Nat) (owner : Decl) (name : String) : Decl :=
  { owner.within serial .fieldDecl name with type := .builtin {} .int }

-- `struct S; class S { int x; public: struct In { private: int a; }; void f(); protected: int y; };`
def unit : SourceUnit where
  root := .wholeFile 0
  forest := .ofList [(forward, .nil), (whole, .ofList [
    (data 4 whole "x", .nil), (access 5 whole .everyone, .nil),
    (inner, .ofList [(access 6 inner .owner, .nil), (data 7 inner "a", .nil)]),
    (whole.within 8 .methodDecl "f", .nil), (access 9 whole .derived, .nil), (data 10 whole "y", .nil)])]

def state : Collector := ((Collector.start "/" [] {}).states [unit]).getLast (List.cons_ne_nil _ _)

end NestedAccess

open NestedAccess in
theorem method_public_past_nested_class :
    ∃ entry ∈ state.db.classes, entry.fullName = "::S" ∧
      entry.record.members .field = [("x", .owner), ("y", .derived)] ∧
      (entry.record.members .method)[0]? = some ("f", .everyone) ∧
      ∃ m ∈ (Collector.start "/" [] {}).history [unit], m.decl.spelling = "f" ∧ m.parent.site.Declares "::S" ∧
        ∃ siblings, (m.parent, siblings) ∈ unit.forest.nodes ∧
          ∃ older children newer, siblings.toList = older ++ (m.decl, children) :: newer ∧
            Visibility.everyone = ((Collector.start "/" [] {}).accessAfter m.parent (older.map Prod.fst)).visibility := by
  have wf : WellFormed [unit] := by decide
  have reached : state ∈ (Collector.start "/" [] {}).states [unit] := List.getLast_mem _
  obtain ⟨entry, other, hentries⟩ : ∃ entry other, state.db.classes = [entry, other] := ⟨_, _, rfl⟩
  have known : entry ∈ state.db.classes := by simp [hentries]
  have hview : state.db.classes.map (fun e => (e.fullName, e.record.members .field, e.record.members .method)) =
      [("::S", [("x", .owner), ("y", .derived)], [("f", .everyone)]), ("::S::In", [("a", .owner)], [])] := rfl
  rw [hentries] at hview
  simp only [List.map_cons, List.cons.injEq, Prod.mk.injEq] at hview
  obtain ⟨⟨hname, hfields, hmethods⟩, -⟩ := hview
  have member : (entry.record.members .method)[0]? = some ("f", .everyone) := by rw [hmethods]; rfl
  obtain ⟨m, hm, -, -, -, hspelling, hdeclares, u, hu, hposition⟩ :=
    visibility_is_access_in_force wf (by decide) (by decide) reached known member
  obtain rfl := List.mem_singleton.mp hu
  exact ⟨entry, known, hname, hfields, member, m, hm, hspelling, hname ▸ hdeclares, hposition⟩

namespace Reopened

def data : Decl × Forest := ({ whole.within 7 .fieldDecl "x" with type := .builtin {} .int }, .nil)

def fields (tree : Decl × Forest) : List (String × List (String × Visibility)) :=
  (walked tree data).db.classes.map fun entry => (entry.fullName, entry.record.members .field)

end Reopened

open Reopened in
/-- The data member is public, though no access specifier stands before it in its class. -/
theorem visibility_lost_inside_itself :
    (Private belowUnion data ∧ fields belowUnion = [("::N::S", [("x", .everyone)])]) ∧
      Private belowFile data ∧ fields belowFile = [("::N::S", [("x", .everyone)])] := by
  refine ⟨⟨⟨by decide, by decide, by decide, by decide⟩, rfl⟩,
    ⟨by decide, by decide, by decide, by decide⟩, rfl⟩

end SymbolIndex
