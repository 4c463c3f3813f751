import RecordCodec.TypeExpr.Lexer
import RecordCodec.TypeExpr.Union

set_option autoImplicit false

/-!
# Reading type expressions

A union is a list of terms separated by bars; a term is a name, with arguments in brackets if the
name is that of a generic type. What the arguments may be is for the name to decide, once the
closing bracket has been read.
-/
namespace RecordCodec.TypeExpr

inductive Argument where
  | type (ty : TypeExpr) (offset : Nat)
  | literal (v : Json) (offset : Nat)
  | ellipsis (offset : Nat)
  | emptyTuple (offset : Nat)

def typesOnly (head : String) : List Argument → Parsed (List TypeExpr)
  | [] => .ok []
  | .type ty _ :: rest => (typesOnly head rest).map (ty :: ·)
  | .literal _ offset :: _ => .error ⟨offset, .literalArgument head⟩
  | .ellipsis offset :: _ => .error ⟨offset, .ellipsisArgument head⟩
  | .emptyTuple offset :: _ => .error ⟨offset, .emptyTupleArgument head⟩

def literalsOnly : List Argument → Parsed (List Json)
  | [] => .ok []
  | .literal v _ :: rest => (literalsOnly rest).map (v :: ·)
  | .type _ offset :: _ | .ellipsis offset :: _ | .emptyTuple offset :: _ =>
    .error ⟨offset, .typeAsLiteral⟩

def checkArity (head : String) (offset expected : Nat) (args : List TypeExpr) :
    Parsed (List TypeExpr) :=
  if args.length = expected then .ok args
  else .error ⟨offset, .wrongArity head expected args.length⟩

inductive Head where
  | optional | union | literal | tuple
  | container (shape : Shape) (defaults : List TypeExpr)
  | plain

def headOf (name : String) : Head :=
  if name = "Optional" then .optional
  else if name = "Union" then .union
  else if name = "Literal" then .literal
  else if name ∈ ["tuple", "Tuple"] then .tuple
  else if name ∈ ["list", "List", "Sequence", "MutableSequence", "Iterable", "Collection",
      "deque"] then .container .sequence [any]
  else if name ∈ ["set", "Set", "frozenset", "FrozenSet", "AbstractSet", "MutableSet"] then
    .container .set [any]
  else if name ∈ ["dict", "Dict", "Mapping", "MutableMapping", "OrderedDict"] then
    .container .mapping [primitive .str, any]
  else if name ∈ ["defaultdict", "DefaultDict"] then
    .container .defaultMapping [primitive .str, any]
  else .plain

def buildTuple (head : String) (offset : Nat) : Option (List Argument) → Parsed TypeExpr
  | none => .ok (variadic any)
  | some [.emptyTuple _] => .ok (tuple [])
  | some [.type item _, .ellipsis _] => .ok (variadic item)
  | some args => do
    let items ← typesOnly head args
    if items.isEmpty then .error ⟨offset, .emptyTupleBrackets⟩ else .ok (tuple items)

/-- The type that a name stands for with these arguments, or without any. -/
def build (name : String) (offset : Nat) (args : Option (List Argument)) : Parsed TypeExpr :=
  match headOf name with
  | .optional => do
    let types ← typesOnly name (args.getD [])
    let types ← checkArity name offset 1 types
    .ok (unionOf (types ++ [null]))
  | .union => do
    let types ← typesOnly name (args.getD [])
    if types.isEmpty then .error ⟨offset, .emptyUnion⟩ else .ok (unionOf types)
  | .literal =>
    if (args.getD []).isEmpty then .error ⟨offset, .emptyLiteral⟩
    else (literalsOnly (args.getD [])).map literal
  | .tuple => buildTuple name offset args
  | .container shape defaults => do
    let types ← match args with
      | some args => typesOnly name args
      | none => .ok defaults
    let types ← checkArity name offset defaults.length types
    .ok (apply shape types)
  | .plain =>
    if args.isSome then .error ⟨offset, .notGeneric name⟩
    else match Primitive.ofName? name with
      | some p => .ok (primitive p)
      | none => .ok (named name)

/-- Names that are values inside the brackets of a literal type. -/
def literalName? (name : String) : Option Json :=
  if name ∈ ["True", "true"] then some (.bool true)
  else if name ∈ ["False", "false"] then some (.bool false)
  else if name ∈ ["None", "null"] then some .null
  else none

def offsetOf (finish : Nat) : List Lexeme → Nat
  | [] => finish
  | lexeme :: _ => lexeme.offset

mutual
/-- Of the calls nested in one another at most four share their first token, so four times the
number of tokens, and four more, are fuel enough. -/
def parseUnion (finish : Nat) : Nat → List Lexeme → Parsed (TypeExpr × List Lexeme)
  | 0, ts => .error ⟨offsetOf finish ts, .tooDeep⟩
  | fuel + 1, ts => do
    let (first, ts) ← parseTerm finish fuel ts
    let (more, ts) ← parseArms finish fuel ts
    .ok (if more.isEmpty then first else unionOf (first :: more), ts)
def parseArms (finish : Nat) : Nat → List Lexeme → Parsed (List TypeExpr × List Lexeme)
  | 0, ts => .error ⟨offsetOf finish ts, .tooDeep⟩
  | fuel + 1, ts =>
    match ts with
    | ⟨.pipe, _⟩ :: ts => do
      let (arm, ts) ← parseTerm finish fuel ts
      let (more, ts) ← parseArms finish fuel ts
      .ok (arm :: more, ts)
    | ts => .ok ([], ts)
def parseTerm (finish : Nat) : Nat → List Lexeme → Parsed (TypeExpr × List Lexeme)
  | 0, ts => .error ⟨offsetOf finish ts, .tooDeep⟩
  | fuel + 1, ts =>
    match ts with
    | [] => .error ⟨finish, .expectedType⟩
    | ⟨.ident name, offset⟩ :: ⟨.openBracket, _⟩ :: ts => do
      let (args, ts) ← parseArgs finish (name == "Literal") fuel ts
      match ts with
      | ⟨.closeBracket, _⟩ :: ts =>
        let ty ← build name offset (some args)
        .ok (ty, ts)
      | ts => .error ⟨offsetOf finish ts, .expectedCloseBracket⟩
    | ⟨.ident name, offset⟩ :: ts => do
      let ty ← build name offset none
      .ok (ty, ts)
    | ⟨token, offset⟩ :: _ => .error ⟨offset, .expectedName token⟩
def parseArgs (finish : Nat) (literals : Bool) :
    Nat → List Lexeme → Parsed (List Argument × List Lexeme)
  | 0, ts => .error ⟨offsetOf finish ts, .tooDeep⟩
  | fuel + 1, ts =>
    match ts with
    | ⟨.closeBracket, offset⟩ :: ts => .ok ([], ⟨.closeBracket, offset⟩ :: ts)
    | ts => do
      let (arg, ts) ← parseArg finish literals fuel ts
      match ts with
      | ⟨.comma, _⟩ :: ts =>
        let (more, ts) ← parseArgs finish literals fuel ts
        .ok (arg :: more, ts)
      | ts => .ok ([arg], ts)
def parseArg (finish : Nat) (literals : Bool) :
    Nat → List Lexeme → Parsed (Argument × List Lexeme)
  | 0, ts => .error ⟨offsetOf finish ts, .tooDeep⟩
  | fuel + 1, ts =>
    match ts with
    | [] => .error ⟨finish, .expectedArgument⟩
    | ⟨.ellipsis, offset⟩ :: ts => .ok (.ellipsis offset, ts)
    | ⟨.str s, offset⟩ :: ts => .ok (.literal (.string s) offset, ts)
    | ⟨.num n, offset⟩ :: ts => .ok (.literal (.number n) offset, ts)
    | ⟨.openParen, offset⟩ :: ts =>
      match ts with
      | ⟨.closeParen, _⟩ :: ts => .ok (.emptyTuple offset, ts)
      | ts => .error ⟨offsetOf finish ts, .expectedCloseParen⟩
    | ⟨token, offset⟩ :: rest =>
      match literals, token with
      | true, .ident name =>
        match literalName? name with
        | some v => .ok (.literal v offset, rest)
        | none => (parseUnion finish fuel ts).map fun (ty, ts) => (.type ty offset, ts)
      | _, _ => (parseUnion finish fuel ts).map fun (ty, ts) => (.type ty offset, ts)
end

def parseAll (finish : Nat) (ts : List Lexeme) : Parsed TypeExpr := do
  let (ty, rest) ← parseUnion finish (4 * ts.length + 4) ts
  match rest with
  | [] => .ok ty
  | lexeme :: _ => .error ⟨lexeme.offset, .trailingInput⟩

/-- The type that a text is an expression of, an error, or nothing if the text is read for ever. -/
def parse (text : String) : Option (Parsed TypeExpr) :=
  (lex text).map fun lexed => lexed >>= parseAll text.utf8ByteSize

end RecordCodec.TypeExpr
