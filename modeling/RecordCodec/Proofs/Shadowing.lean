import RecordCodec.Proofs.Grammar

set_option autoImplicit false

/-!
# Names that types can mention

A schema keeps the names of its declarations apart from one another and from those of primitives, so
that a name means one thing. A type expression gives its own meaning to the names of generic types
as well, with no arguments too, and these a schema accepts. A declared name that is read as one
identifier stands for its declaration in a type just if it is none of them.
-/
namespace RecordCodec

theorem Table.contains_insert {α : Type} (name other : String) (value : α) (t : Table α) :
    (t.insert name value).contains other = (decide (other = name) || t.contains other) := by
  unfold contains
  rw [get?_insert]
  split
  case isTrue same => simp [same]
  case isFalse ne => simp [ne]

theorem Table.toNat_contains_insert_le {α : Type} (name other : String) (value : α) (t : Table α) :
    ((t.insert name value).contains other).toNat ≤
      (t.contains other).toNat + (decide (other = name)).toNat := by
  rw [contains_insert]
  cases t.contains other <;> cases decide (other = name) <;> decide

theorem Table.get?_of_contains_eq_false {α : Type} {t : Table α} {name : String}
    (h : t.contains name = false) : t.get? name = none :=
  Option.isNone_iff_eq_none.1 (Option.isSome_eq_false_iff.1 h)

namespace Schema

variable {s : Schema} {name : String} {shape : Shape}

/-! ### One meaning for a name -/

/-- What is declared under a name, as a shape. -/
inductive Declares (s : Schema) (name : String) : Shape → Prop where
  | record {r : RecordType} : s.record? name = some r → Declares s name (.record r.kind name)
  | enumeration {e : EnumType} : s.enum? name = some e → Declares s name (.enumeration name)
  | custom {base : Option String} : s.customs.get? name = some base → Declares s name (.custom name)

theorem Declares.declaredName? (h : s.Declares name shape) : shape.declaredName? = some name := by
  cases h <;> rfl

/-- How many things a name means: as a declaration of each kind and as a primitive. -/
def meanings (name : String) (s : Schema) : Nat :=
  (s.records.contains name).toNat + (s.enums.contains name).toNat +
    (s.customs.contains name).toNat + (Primitive.ofName? name).isSome.toNat

theorem meanings_of_checkFree (h : s.checkFree name = .ok ()) : s.meanings name = 0 := by
  unfold checkFree at h
  split at h
  case isTrue => cases h
  case isFalse free =>
    simp only [isTaken, Bool.or_eq_true, not_or, Bool.not_eq_true] at free
    obtain ⟨⟨⟨noRecord, noEnum⟩, noCustom⟩, notPrimitive⟩ := free
    rw [meanings, noRecord, noEnum, noCustom, notPrimitive]
    rfl

/-- A declaration gives its name one meaning more, and had to find the name free. -/
theorem meanings_le_one_of_checkFree {s' : Schema} {new : String}
    (free : s.checkFree new = .ok ())
    (more : s'.meanings name ≤ s.meanings name + (decide (name = new)).toNat)
    (before : s.meanings name ≤ 1) : s'.meanings name ≤ 1 := by
  by_cases same : name = new
  · subst same
    rw [meanings_of_checkFree free, decide_eq_true rfl, Bool.toNat_true] at more
    exact more
  · rw [decide_eq_false same, Bool.toNat_false] at more
    exact more.trans before

theorem Declared.meanings_le_one (h : s.Declared) (name : String) : s.meanings name ≤ 1 := by
  induction h with
  | empty =>
    have isPrimitive : (Primitive.ofName? name).isSome.toNat ≤ 1 := Bool.toNat_le _
    simpa [meanings, Table.contains, Table.get?, Table.empty, Assoc.get?] using isPrimitive
  | @record s s' r _ added ih =>
    obtain ⟨-, -, rfl⟩ := addRecord_eq_ok added
    rw [addRecord, bind_eq_ok_iff] at added
    obtain ⟨_, free, -⟩ := added
    refine meanings_le_one_of_checkFree free ?_ ih
    have := s.records.toNat_contains_insert_le r.name name r
    simp only [meanings]
    omega
  | @enum s s' e _ added ih =>
    obtain rfl := addEnum_eq_ok added
    rw [addEnum, bind_eq_ok_iff] at added
    obtain ⟨_, free, -⟩ := added
    refine meanings_le_one_of_checkFree free ?_ ih
    have := s.enums.toNat_contains_insert_le e.name name e
    simp only [meanings]
    omega
  | @custom s s' new base _ added ih =>
    obtain rfl := addCustom_eq_ok added
    rw [addCustom, bind_eq_ok_iff] at added
    obtain ⟨_, free, -⟩ := added
    refine meanings_le_one_of_checkFree free ?_ ih
    have := s.customs.toNat_contains_insert_le new name base
    simp only [meanings]
    omega

theorem Declared.of_declares (h : s.Declared) (declares : s.Declares name shape) :
    Primitive.ofName? name = none ∧ s.classify name = shape := by
  have only := h.meanings_le_one name
  unfold meanings at only
  have notPrimitive (no : (Primitive.ofName? name).isSome.toNat = 0) :
      Primitive.ofName? name = none :=
    Option.isNone_iff_eq_none.1 (Option.isSome_eq_false_iff.1 (Bool.toNat_eq_zero.1 no))
  cases declares with
  | @record r found =>
    have isRecord : s.records.contains name = true := Option.isSome_iff_exists.2 ⟨r, found⟩
    rw [isRecord, Bool.toNat_true] at only
    refine ⟨notPrimitive (by omega), ?_⟩
    rw [classify, found]
  | @enumeration e found =>
    have isEnum : s.enums.contains name = true := Option.isSome_iff_exists.2 ⟨e, found⟩
    rw [isEnum, Bool.toNat_true] at only
    have noRecord : s.records.contains name = false := Bool.toNat_eq_zero.1 (by omega)
    refine ⟨notPrimitive (by omega), ?_⟩
    rw [classify, record?, Table.get?_of_contains_eq_false noRecord]
    exact if_pos isEnum
  | @custom base found =>
    have isCustom : s.customs.contains name = true := Option.isSome_iff_exists.2 ⟨base, found⟩
    rw [isCustom, Bool.toNat_true] at only
    have noRecord : s.records.contains name = false := Bool.toNat_eq_zero.1 (by omega)
    have noEnum : s.enums.contains name = false := Bool.toNat_eq_zero.1 (by omega)
    refine ⟨notPrimitive (by omega), ?_⟩
    rw [classify, record?, Table.get?_of_contains_eq_false noRecord]
    exact (if_neg (Bool.eq_false_iff.1 noEnum)).trans (if_pos isCustom)

end Schema

/-! ### What a bare name stands for -/

namespace TypeExpr

variable {name word : String} {offset : Nat} {ty : TypeExpr}

def genericNames : List String :=
  ["Optional", "Union", "Literal", "tuple", "Tuple", "list", "List", "Sequence", "MutableSequence",
    "Iterable", "Collection", "deque", "set", "Set", "frozenset", "FrozenSet", "AbstractSet",
    "MutableSet", "dict", "Dict", "Mapping", "MutableMapping", "OrderedDict", "defaultdict",
    "DefaultDict"]

theorem headOf_eq_plain_iff : headOf name = .plain ↔ name ∉ genericNames := by
  constructor
  · intro plain isGeneric
    have noneIsPlain : ∀ generic ∈ genericNames, headOf generic ≠ .plain := by
      simp only [genericNames, List.forall_mem_cons]
      repeat' constructor
      all_goals nofun
    exact noneIsPlain name isGeneric plain
  · intro notGeneric
    simp only [genericNames, List.mem_cons, List.not_mem_nil, or_false, not_or] at notGeneric
    simp only [headOf, List.mem_cons, List.not_mem_nil, or_false, notGeneric, if_false]

theorem declaredName?_of_headOf {shape : Shape} {defaults : List TypeExpr}
    (h : headOf name = .container shape defaults) : shape.declaredName? = none := by
  unfold headOf at h
  split_ifs at h <;> cases h <;> rfl

theorem parse_of_lex_ident (reads : lex name = some (.ok [⟨.ident word, offset⟩])) :
    parse name = some (build word offset none) := by
  rw [parse_of_lex reads]
  refine congrArg some ?_
  unfold parseAll
  show (parseUnion _ 8 _ >>= _) = _
  cases built : build word offset none <;>
    simp [parseUnion, parseTerm, parseArms, built, bind, Except.bind]

end TypeExpr

namespace Schema

variable {s : Schema} {name word : String} {shape : Shape} {offset : Nat}

theorem declaredName?_classify : (s.classify name).declaredName? = some name := by
  unfold classify
  split
  case h_1 => rfl
  case h_2 => split_ifs <;> rfl

theorem eq_of_denotes {ty : TypeExpr} (denotes : TypeExpr.Denotes word none ty)
    (isNamed : (s.resolveShape ty.shape).declaredName? = some name) :
    word = name ∧ TypeExpr.headOf word = .plain := by
  cases denotes with
  | anyTuple => cases isNamed
  | @ofAny shape defaults isContainer =>
    have unnamed := TypeExpr.declaredName?_of_headOf isContainer
    have same : s.resolveShape shape = shape := by
      cases shape <;> first | rfl | cases unnamed
    have isNamed : (s.resolveShape shape).declaredName? = some name := isNamed
    rw [same, unnamed] at isNamed
    cases isNamed
  | primitive => cases isNamed
  | named plain =>
    exact ⟨Option.some_inj.1 (declaredName?_classify.symm.trans isNamed), plain⟩

/-- A declared name that reads as one word stands for its declaration in a type just if it is that
word, with no space around it, and not the name of a generic type. -/
theorem resolve_parse_eq_iff (h : s.Declared) (declares : s.Declares name shape)
    (reads : TypeExpr.lex name = some (.ok [⟨.ident word, offset⟩])) :
    (TypeExpr.parse name).map (·.map s.resolve) = some (.ok (TypeExpr.apply shape [])) ↔
      word = name ∧ name ∉ TypeExpr.genericNames := by
  rw [TypeExpr.parse_of_lex_ident reads, ← TypeExpr.headOf_eq_plain_iff, Option.map_some,
    Option.some_inj]
  constructor
  · intro stands
    obtain ⟨ty, built, resolved⟩ := map_eq_ok_iff.1 stands
    have isNamed : (s.resolveShape ty.shape).declaredName? = some name := by
      have same : (s.resolve ty).shape = shape := congrArg TypeExpr.shape resolved
      have same : s.resolveShape ty.shape = shape := by
        cases ty
        exact same
      rw [same, declares.declaredName?]
    obtain ⟨rfl, plain⟩ := eq_of_denotes (TypeExpr.denotes_of_build built) isNamed
    exact ⟨rfl, plain⟩
  · rintro ⟨rfl, plain⟩
    obtain ⟨notPrimitive, classified⟩ := h.of_declares declares
    rw [TypeExpr.build_name plain notPrimitive]
    show Except.ok (TypeExpr.apply (s.classify word) []) = _
    rw [classified]

def lone (name : String) : Schema := { records := Table.empty.insert name { name := name } }

theorem declares_lone : (lone name).Declares name (.record .keyword name) := by
  refine .record (r := { name := name }) ?_
  rw [record?, lone, Table.get?_insert, if_pos rfl]

theorem resolve_parse_node :
    (lone "Node").Declared ∧ (lone "Node").Declares "Node" (.record .keyword "Node") ∧
      TypeExpr.lex "Node" = some (.ok [⟨.ident "Node", 0⟩]) ∧
      (TypeExpr.parse "Node").map (·.map (lone "Node").resolve) =
        some (.ok (TypeExpr.apply (.record .keyword "Node") [])) :=
  have declared : (lone "Node").Declared := .record { name := "Node" } .empty rfl
  have reads : TypeExpr.lex "Node" = some (.ok [⟨.ident "Node", 0⟩]) := rfl
  ⟨declared, declares_lone, reads,
    (resolve_parse_eq_iff declared declares_lone reads).2 ⟨rfl, by decide⟩⟩

/-- A record can have the name of a generic type, and the name does not stand for it then. -/
theorem resolve_parse_list_ne :
    (lone "List").Declared ∧ (lone "List").Declares "List" (.record .keyword "List") ∧
      TypeExpr.lex "List" = some (.ok [⟨.ident "List", 0⟩]) ∧
      (TypeExpr.parse "List").map (·.map (lone "List").resolve) ≠
        some (.ok (TypeExpr.apply (.record .keyword "List") [])) := by
  refine ⟨.record { name := "List" } .empty rfl, declares_lone, rfl, fun stands => ?_⟩
  cases stands

end Schema
end RecordCodec
