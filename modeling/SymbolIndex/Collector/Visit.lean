import SymbolIndex.Collector.Member

/-!
# Visiting declarations

Each event is one declaration with the site around it. Open templates see it first; then scopes,
aliases and enums register themselves; what is left is a member of a known class, a free function, or
nothing of interest.
-/

namespace SymbolIndex

/-- Unnamed records are spelled with a parenthesis in front, or not at all. -/
def isUnnamed (name : String) : Bool := name == "" || name.toList.head? == some '('

/-- The class key of a declaration, or of what it is a template of. -/
def Decl.classKey (decl : Decl) : ClassKey :=
  let kind := if decl.kind = .classTemplate then decl.templated else decl.kind
  if kind = .structDecl then .structKey else .classKey

namespace Collector

/-! ## Scopes -/

def visitNamespace (c : Collector) (decl : Decl) (parent : Site) : Outcome :=
  let name := decl.spelling
  if isUnnamed name then c.answer c.db .pass []
  else
    let context := (c.db.scopeName? parent.chain).getD ""
    c.answer (c.db.addNamespace name (context ++ "::" ++ name) decl.place) .enter []

/-- Where a class declaration stands. -/
inductive ClassContext where
  | within (scope : String)
  | hidden
  | unknown

/-- The scope of a class declared under `parent`. A class that is not a public member is hidden. -/
def classContext (c : Collector) (parent : Site) : ClassContext :=
  if parent.kind = .sourceUnit then .within ""
  else
    match c.db.classAt? parent.place with
    | some entry =>
      if entry.access = .everyone then .within entry.fullName else .hidden
    | none =>
      match c.db.scopeName? parent.chain with
      | some scope => .within scope
      | none => .unknown

def visitClass (c : Collector) (decl : Decl) (parent : Site) : Outcome :=
  let name := decl.spelling
  if isUnnamed name then c.answer c.db .pass []
  else
    match c.classContext parent with
    | .hidden => c.answer c.db .pass []
    | .unknown => c.answer c.db .pass [.classWithoutScope name]
    | .within scope =>
      let key := decl.classKey
      let path := c.fileOf decl
      let record : Class :=
        { name := name, fullName := scope ++ "::" ++ name, key := key, fromFile := path,
          includePath := c.includePath path }
      let added := c.db.addClass record decl.place key.access
      c.answer added.db (if added.entersMembers then .enter else .pass) added.notes

/-! ## Enums -/

def visitEnum (c : Collector) (decl : Decl) (parent : Site) : Outcome :=
  let name := decl.spelling
  if isUnnamed name then c.answer c.db .pass []
  else
    let context := (c.db.scopeName? parent.chain).getD ""
    let record : Enum :=
      { name := name, fullName := context ++ "::" ++ name, fromFile := c.fileOf decl }
    c.answer (c.db.addEnum record decl.place) .enter []

def visitConstant (c : Collector) (decl : Decl) (parent : Site) : Outcome :=
  c.answer (c.db.addConstant parent.place decl.spelling decl.value) .pass []

/-! ## Aliases -/

/-- The alias `name` for a type, as an entry of the type table. The target is looked up; if nothing
matches, its label stands in and the entry is a guess. -/
def aliasEntry (c : Collector) (name : String) (scope : List String) (target : TypeRef) :
    TypeRef × Bool :=
  let entry : TypeRef :=
    { rawName := name, name := name, scopePath := scope, kind := .aliasType,
      templateArguments := target.templateArguments }
  if target.kind = .builtin then
    ({ entry with fullName := target.fullName }.addLayer target, true)
  else
    match target.findIn? c.db.types scope with
    | some known =>
      let arguments :=
        if entry.templateArguments = "" then known.templateArguments else entry.templateArguments
      let entry := { entry with fullName := known.fullName, templateArguments := arguments }
      ((entry.addLayer known).addLayer target, true)
    | none =>
      let fullName := if target.fullName = "" then target.label else target.fullName
      ({ entry with fullName := fullName, bestEffort := true }.addLayer target, false)

def visitAlias (c : Collector) (decl : Decl) (parent : Site) : Outcome :=
  let name := decl.spelling
  match c.db.scopeName? parent.chain with
  | none => c.answer c.db .pass [.aliasWithoutScope name]
  | some context =>
    let target := TypeRef.ofTree decl.underlying
    let (entry, isKnown) := c.aliasEntry name (Scope.split context) target
    c.answer (c.db.addType entry) .pass
      (if isKnown then [] else [.aliasOfUnknown context name target.rawName])

/-! ## Events -/

/-- A declaration that no open template has taken. -/
def visitDecl (c : Collector) (decl : Decl) (parent : Site) : Outcome :=
  match decl.kind with
  | .namespaceDecl => c.visitNamespace decl parent
  | .typedefDecl | .typeAliasDecl => c.visitAlias decl parent
  | .enumDecl => c.visitEnum decl parent
  | .enumConstant => c.visitConstant decl parent
  | .structDecl | .classDecl | .classTemplate => c.visitClass decl parent
  | .linkageSpec => c.answer c.db .enter []
  | kind =>
    match c.db.classAt? parent.place with
    | some entry => c.visitMember entry decl
    | none =>
      if kind = .functionDecl ∨ kind = .functionTemplate then c.visitFunction decl parent
      else c.answer c.db .pass [.unhandledDecl kind decl.spelling]

/-- Take one declaration into the database and say whether to go below it. -/
def visit (c : Collector) (decl : Decl) (parent : Site) : Outcome :=
  if c.includes (c.fileOf decl) then
    match (c.settleClass decl).offerFunction decl parent with
    | (c, some directive) => c.answer c.db directive []
    | (c, none) => c.visitDecl decl parent
  else c.answer c.db .pass []

/-- The step of a walk that collects, and gathers notes. -/
def step : WalkStep (Collector × List Note) BrokenType :=
  fun (c, notes) decl parent =>
    let outcome := c.visit decl parent.site
    ((outcome.collector, notes ++ outcome.notes), outcome.answer)

/-- A collector with no open template. -/
def closeTemplates (c : Collector) : Collector := { c with openClass := none, openFunction := none }

/-- Walk a whole unit. The answer is `false` if the walk was stopped. -/
def collect (c : Collector) (unit : SourceUnit) : (Collector × List Note) × Except BrokenType Bool :=
  unit.walk step (c.closeTemplates, [])

/-- The same walk, with the calls of its step. -/
def collectRecording (c : Collector) (unit : SourceUnit) :
    ((Collector × List Note) × List WalkCall) × Except BrokenType Bool :=
  unit.walk (recording step) ((c.closeTemplates, []), [])

end Collector

end SymbolIndex
