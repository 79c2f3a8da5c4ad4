import SymbolIndex.Collector.Template

/-!
# Members of classes, and functions

Children of a known class become its template parameters, bases, methods, constructors and fields.
Functions outside every class become records of their own.
-/

namespace SymbolIndex

/-! ## Base classes -/

/-- The text before the first template bracket. -/
def beforeBracket (text : String) : String := String.ofList (text.toList.takeWhile (· != '<'))

/-- The text after `word`, if it starts so. -/
def dropLeading (word text : List Char) : Option (List Char) :=
  if word.isPrefixOf text then some (text.drop word.length) else none

/-- The text without a leading class key. -/
def withoutClassKey (text : String) : String :=
  let s := text.toList
  String.ofList
    (Text.trim ((dropLeading "class ".toList s <|> dropLeading "struct ".toList s).getD s))

namespace Collector

/-- A base class by its written name. A class that the name means is known by its full name; any
other base keeps what was written. -/
def addBase (c : Collector) (entry : ClassEntry) (written : String) : Outcome :=
  let owner := entry.fullName
  let name := withoutClassKey (beforeBracket written)
  match c.db.classLike? name (Scope.parent owner) with
  | some base =>
    let db := c.db.updateClass owner fun entry =>
      { entry with
        record.bases := entry.record.bases ++ [base.fullName]
        record.knownBases := entry.record.knownBases ++ [base.fullName] }
    c.answer db .enter []
  | none =>
    let db := c.db.updateClass owner fun entry =>
      { entry with record.bases := entry.record.bases ++ [name] }
    c.answer db .enter [.unknownBase owner name]

/-! ## Fields -/

/-- Add a field, unless the class has one of this name. -/
def addField (c : Collector) (entry : ClassEntry) (decl : Decl) (isStatic : Bool) : Outcome :=
  match resolveParameter decl.type c.db.types decl.spelling (Scope.split entry.fullName) with
  | .error broken => { collector := c, answer := .error broken }
  | .ok param =>
    let field : Field :=
      { param with isStatic := isStatic, visibility := entry.access.visibility }
    if entry.record.fields.any (field.same ·) then c.answer c.db .pass []
    else
      let db := c.db.updateClass entry.fullName fun entry =>
        { entry with record.fields := entry.record.fields ++ [field] }
      c.answer db .pass []

end Collector

/-! ## Signatures -/

/-- The type of an argument and its name: those of its own node where that has a type, else the type
in the prototype without a name. -/
def argumentSlot (type : TypeTree) (node : Option Argument) : TypeTree × String :=
  match node with
  | some argument => if argument.type.isInvalid then (type, "") else (argument.type, argument.name)
  | none => (type, "")

/-- The slots of a prototype's arguments, in order. -/
def argumentSlots : List TypeTree → List (Option Argument) → List (TypeTree × String)
  | [], _ => []
  | type :: types, [] => argumentSlot type none :: argumentSlots types []
  | type :: types, node :: nodes => argumentSlot type node :: argumentSlots types nodes

/-- The result as a slot, if there is one. -/
def resolveResult (type : TypeTree) (table : List TypeRef) (scope : List String) :
    Option Parameter :=
  if type.isInvalid || type.isVoid then none
  else some (.ofType ((TypeSource.reported type).resolve table scope) "")

/-- The signature of a function-like declaration. One without a prototype has nothing to read. -/
def readSignature (decl : Decl) (table : List TypeRef) (scope : List String) :
    Except BrokenType Signature :=
  match decl.prototype with
  | none => .ok {}
  | some prototype => do
    let params ← (argumentSlots prototype.arguments decl.arguments).mapM fun slot =>
      resolveParameter slot.1 table slot.2 scope
    return {
      result := resolveResult prototype.result table scope
      params := params
      isVariadic := prototype.isVariadic }

namespace Collector

/-- Add a method or constructor and open it for template parameters. -/
def addMethod (c : Collector) (entry : ClassEntry) (decl : Decl) : Outcome :=
  let owner := entry.fullName
  let scope := Scope.split owner
  match readSignature decl c.db.types scope with
  | .error broken => { collector := c, answer := .error broken }
  | .ok signature =>
    let method : Method :=
      { signature with
        name := decl.spelling
        isStatic := decl.isStatic
        isVirtual := decl.isVirtual
        isPureVirtual := decl.isPure
        isConst := decl.isConst
        visibility := entry.access.visibility }
    if decl.kind = .constructorDecl then
      let db := c.db.updateClass owner fun entry =>
        { entry with record.constructors := entry.record.constructors ++ [method] }
      let target := .constructorOf owner entry.record.constructors.length
      { c with openFunction := some { target, scope } }.answer db .enter []
    else
      let db := c.db.updateClass owner fun entry =>
        { entry with record.methods := entry.record.methods ++ [method] }
      let target := .methodOf owner entry.record.methods.length
      { c with openFunction := some { target, scope } }.answer db .enter []

/-- A child of a known class. -/
def visitMember (c : Collector) (entry : ClassEntry) (decl : Decl) : Outcome :=
  let owner := entry.fullName
  match decl.kind with
  | .templateTypeParameter =>
    let db := c.db.changeClassTemplateParams owner (· ++ [{ name := decl.spelling }])
    { c with openClass := some owner }.answer db .enter []
  | .baseSpecifier => c.addBase entry decl.spelling
  | .accessSpec =>
    c.answer (c.db.updateClass owner fun entry => { entry with access := decl.access }) .enter []
  | .methodDecl | .functionTemplate | .constructorDecl => c.addMethod entry decl
  | .fieldDecl => c.addField entry decl false
  | .variableDecl => c.addField entry decl true
  | .friendDecl => c.answer c.db .pass []
  | kind => c.answer c.db .enter [.unhandledMember kind decl.spelling]

/-- A function outside every class. A template is opened for its parameters. -/
def visitFunction (c : Collector) (decl : Decl) (parent : Site) : Outcome :=
  let context := (c.db.scopeName? parent.chain).getD ""
  let scope := Scope.split context
  match readSignature decl c.db.types scope with
  | .error broken => { collector := c, answer := .error broken }
  | .ok signature =>
    let path := c.fileOf decl
    let function : FreeFunction :=
      { signature with
        name := decl.spelling
        fullName := context ++ "::" ++ decl.spelling
        fromFile := path
        includePath := c.includePath path }
    if c.db.knowsFunction function then c.answer c.db .pass []
    else if decl.kind = .functionTemplate then
      let target := .function c.db.functions.length
      { c with openFunction := some { target, scope } }.answer (c.db.addFunction function) .enter []
    else c.answer (c.db.addFunction function) .pass []

end Collector

end SymbolIndex
